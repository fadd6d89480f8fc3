import Mathlib.Data.List.Induction
import Tlm.Shared.Fault
import Tlm.Shared.Sorting

set_option autoImplicit false

namespace Tlm.Hexagon

open Cpp

structure MemoryCopy where
  dest : Nat
  src : Nat
  numBytes : Nat
  deriving DecidableEq, Repr

-- What is read past the last of the `num_regions` pointers is open.
structure BufferSet where
  buffers : Nat → Nat
  numRegions : Nat
  regionSizeBytes : Nat

namespace BufferSet

def totalBytes (set : BufferSet) : Nat := set.numRegions * set.regionSizeBytes

def pointerTo (buf : BufferSet) (region byte : Nat) : Nat := buf.buffers region + byte

def microCopy (dest src : BufferSet) (srcBegin srcEnd srcI destI : Nat) : MemoryCopy :=
  let offsetBegin := max srcBegin (destI * dest.regionSizeBytes)
  let offsetEnd := min srcEnd ((destI + 1) * dest.regionSizeBytes)
  ⟨dest.pointerTo destI (offsetBegin % dest.regionSizeBytes), src.pointerTo srcI (offsetBegin % src.regionSizeBytes),
    offsetEnd - offsetBegin⟩

def regionCopies (dest src : BufferSet) (bytesToCopy srcI : Nat) : List MemoryCopy :=
  let srcBegin := srcI * src.regionSizeBytes
  let srcEnd := min ((srcI + 1) * src.regionSizeBytes) bytesToCopy
  let destBegin := srcBegin / dest.regionSizeBytes
  let destEnd := (srcEnd - 1) / dest.regionSizeBytes + 1
  (List.range' destBegin (destEnd - destBegin)).map (dest.microCopy src srcBegin srcEnd srcI)

def memoryCopies (dest src : BufferSet) (bytesToCopy : Nat) : Except Fault (List MemoryCopy) :=
  if src.totalBytes < bytesToCopy ∨ dest.totalBytes < bytesToCopy then .error .check
  else .ok ((List.range ((bytesToCopy + src.regionSizeBytes - 1) / src.regionSizeBytes)).flatMap
    (dest.regionCopies src bytesToCopy))

end BufferSet

namespace MemoryCopy

def isDirectlyBefore (copy other : MemoryCopy) : Bool :=
  copy.src + copy.numBytes == other.src && copy.dest + copy.numBytes == other.dest

def mergeStep (macroCopies : List MemoryCopy) (copy : MemoryCopy) : List MemoryCopy :=
  match macroCopies.getLast? with
  | some back =>
    if back.isDirectlyBefore copy then macroCopies.dropLast ++ [{ back with numBytes := back.numBytes + copy.numBytes }]
    else macroCopies ++ [copy]
  | none => [copy]

def mergeAdjacent (sorting : Sorting) (microCopies : List MemoryCopy) : List MemoryCopy :=
  (sorting.sort (fun a b => decide (a.src < b.src)) microCopies).foldl mergeStep []

def memcpy {α : Type} (memory : Nat → α) (copy : MemoryCopy) (a : Nat) : α :=
  if copy.dest ≤ a ∧ a < copy.dest + copy.numBytes then memory (copy.src + (a - copy.dest)) else memory a

def Moves (copies : List MemoryCopy) (d s : Nat) : Prop :=
  ∃ copy ∈ copies, ∃ j < copy.numBytes, d = copy.dest + j ∧ s = copy.src + j

theorem moves_append (first second : List MemoryCopy) (d s : Nat) :
    Moves (first ++ second) d s ↔ Moves first d s ∨ Moves second d s := by
  simp only [Moves, List.mem_append, or_and_right, exists_or]

theorem moves_merged {back copy : MemoryCopy} (before : back.isDirectlyBefore copy = true) (d s : Nat) :
    Moves [{ back with numBytes := back.numBytes + copy.numBytes }] d s ↔ Moves [back] d s ∨ Moves [copy] d s := by
  simp only [isDirectlyBefore, Bool.and_eq_true, beq_iff_eq] at before
  simp only [Moves, List.mem_singleton, exists_eq_left]
  constructor
  · rintro ⟨j, lt, rfl, rfl⟩
    by_cases inside : j < back.numBytes
    · exact Or.inl ⟨j, inside, rfl, rfl⟩
    · exact Or.inr ⟨j - back.numBytes, by omega, by omega, by omega⟩
  · rintro (⟨j, lt, rfl, rfl⟩ | ⟨j, lt, rfl, rfl⟩)
    · exact ⟨j, by omega, rfl, rfl⟩
    · exact ⟨back.numBytes + j, by omega, by omega, by omega⟩

theorem mergeStep_moves (macroCopies : List MemoryCopy) (copy : MemoryCopy) (d s : Nat) :
    Moves (mergeStep macroCopies copy) d s ↔ Moves macroCopies d s ∨ Moves [copy] d s := by
  rw [← moves_append]
  rcases macroCopies.eq_nil_or_concat with rfl | ⟨others, back, rfl⟩
  · rfl
  · simp only [mergeStep, List.concat_eq_append, List.getLast?_concat, List.dropLast_concat]
    split_ifs with before
    · simp only [moves_append, moves_merged before, or_assoc]
    · rfl

theorem mergeAdjacent_moves (sorting : Sorting) (microCopies : List MemoryCopy) (d s : Nat) :
    Moves (mergeAdjacent sorting microCopies) d s ↔ Moves microCopies d s := by
  have merged (copies macroCopies : List MemoryCopy) :
      Moves (copies.foldl mergeStep macroCopies) d s ↔ Moves (macroCopies ++ copies) d s := by
    induction copies generalizing macroCopies with
    | nil => simp
    | cons copy later ih =>
      rw [List.foldl_cons, ih, moves_append, mergeStep_moves, ← moves_append, ← moves_append, List.append_assoc]
      rfl
  rw [mergeAdjacent, merged]
  simp only [Moves, List.nil_append, sorting.mem_sort]

-- No byte that is read is written, so the order of the copies is free.
theorem foldl_memcpy {α : Type} (copies : List MemoryCopy) (memory : Nat → α)
    (functional : ∀ d s s', Moves copies d s → Moves copies d s' → s = s')
    (apart : ∀ d s s', Moves copies d s → ¬ Moves copies s s') :
    (∀ d s, Moves copies d s → copies.foldl memcpy memory d = memory s) ∧
      ∀ a, (∀ s, ¬ Moves copies a s) → copies.foldl memcpy memory a = memory a := by
  induction copies using List.reverseRecOn with
  | nil => simp [Moves]
  | append_singleton others copy ih =>
    simp only [moves_append] at functional apart ⊢
    specialize ih (fun d s s' old other => functional d s s' (.inl old) (.inl other))
      (fun d s s' old other => apart d s s' (.inl old) (.inl other))
    have last (a : Nat) : (∃ s, Moves [copy] a s ∧ (others ++ [copy]).foldl memcpy memory a = memory s) ∨
        (∀ s, ¬ Moves [copy] a s) ∧ (others ++ [copy]).foldl memcpy memory a = others.foldl memcpy memory a := by
      rw [List.foldl_append, List.foldl_cons, List.foldl_nil, memcpy]
      split_ifs with inside
      · have moved : Moves [copy] a (copy.src + (a - copy.dest)) :=
          ⟨copy, List.mem_singleton_self _, a - copy.dest, by omega, by omega, rfl⟩
        exact Or.inl ⟨_, moved, ih.2 _ fun s old => apart _ _ _ (.inr moved) (.inl old)⟩
      · refine Or.inr ⟨?_, rfl⟩
        simp only [Moves, List.mem_singleton, exists_eq_left]
        rintro s ⟨j, lt, rfl, -⟩
        omega
    constructor
    · intro d s moved
      obtain ⟨s', now, value⟩ | ⟨never, value⟩ := last d
      · rw [value, functional d s s' moved (.inr now)]
      · rw [value, ih.1 d s (moved.resolve_right (never s))]
    · intro a free
      obtain ⟨s', now, -⟩ | ⟨-, value⟩ := last a
      · exact absurd (.inr now) (free s')
      · rw [value, ih.2 a fun s old => free s (.inl old)]

end MemoryCopy

namespace BufferSet

open MemoryCopy

def copyAcrossRegions {α : Type} (dest src : BufferSet) (bytesToCopy : Nat) (sorting : Sorting) (memory : Nat → α) :
    Except Fault (Nat → α) := do
  let microCopies ← dest.memoryCopies src bytesToCopy
  return (mergeAdjacent sorting microCopies).foldl memcpy memory

-- The address of byte `k` of the concatenated regions.
def address (set : BufferSet) (k : Nat) : Nat :=
  set.buffers (k / set.regionSizeBytes) + k % set.regionSizeBytes

def Disjoint (dest src : BufferSet) (i j : Nat) : Prop :=
  dest.buffers i + dest.regionSizeBytes ≤ src.buffers j ∨ src.buffers j + src.regionSizeBytes ≤ dest.buffers i

theorem address_eq (set : BufferSet) {i b k : Nat} (start : i * set.regionSizeBytes ≤ b) (le : b ≤ k)
    (lt : k < (i + 1) * set.regionSizeBytes) :
    set.address k = set.pointerTo i (b % set.regionSizeBytes) + (k - b) := by
  have div : k / set.regionSizeBytes = i := Nat.div_eq_of_lt_le (start.trans le) lt
  have divB : b / set.regionSizeBytes = i := Nat.div_eq_of_lt_le start (le.trans_lt lt)
  have whole := Nat.div_add_mod k set.regionSizeBytes
  have wholeB := Nat.div_add_mod b set.regionSizeBytes
  rw [div] at whole
  rw [divB] at wholeB
  simp only [address, pointerTo, div]
  omega

theorem microCopy_moves (dest src : BufferSet) {n i j d s : Nat} :
    Moves [dest.microCopy src (i * src.regionSizeBytes) (min ((i + 1) * src.regionSizeBytes) n) i j] d s ↔
      ∃ k < n, (i * src.regionSizeBytes ≤ k ∧ k < (i + 1) * src.regionSizeBytes) ∧
        (j * dest.regionSizeBytes ≤ k ∧ k < (j + 1) * dest.regionSizeBytes) ∧ d = dest.address k ∧ s = src.address k := by
  simp only [Moves, List.mem_singleton, exists_eq_left, microCopy]
  generalize begun : max (i * src.regionSizeBytes) (j * dest.regionSizeBytes) = b
  constructor
  · rintro ⟨offset, lt, rfl, rfl⟩
    refine ⟨b + offset, by omega, by omega, by omega, ?_, ?_⟩
    · rw [dest.address_eq (i := j) (b := b) (by omega) (by omega) (by omega), Nat.add_sub_cancel_left]
    · rw [src.address_eq (i := i) (b := b) (by omega) (by omega) (by omega), Nat.add_sub_cancel_left]
  · rintro ⟨k, lt, inSrc, inDest, rfl, rfl⟩
    exact ⟨k - b, by omega, dest.address_eq (by omega) (by omega) inDest.2, src.address_eq (by omega) (by omega) inSrc.2⟩

theorem div_bounds {size : Nat} (positive : 0 < size) (k : Nat) : k / size * size ≤ k ∧ k < (k / size + 1) * size :=
  ⟨Nat.div_mul_le_self k size, Nat.lt_mul_of_div_lt (Nat.lt_succ_self _) positive⟩

section

variable {dest src : BufferSet} {n : Nat} (destSize : 0 < dest.regionSizeBytes) (srcSize : 0 < src.regionSizeBytes)

include destSize srcSize

theorem memoryCopies_moves {copies : List MemoryCopy} (returned : dest.memoryCopies src n = .ok copies) (d s : Nat) :
    Moves copies d s ↔ ∃ k < n, d = dest.address k ∧ s = src.address k := by
  have region (copy : MemoryCopy) : copy ∈ copies ↔ ∃ i < (n + src.regionSizeBytes - 1) / src.regionSizeBytes,
      copy ∈ dest.regionCopies src n i := by
    unfold memoryCopies at returned
    split_ifs at returned
    cases returned
    simp
  constructor
  · rintro ⟨copy, found, moved⟩
    obtain ⟨i, -, found⟩ := (region copy).mp found
    obtain ⟨j, -, rfl⟩ := List.mem_map.mp found
    obtain ⟨k, lt, -, -, same⟩ := (microCopy_moves dest src).mp ⟨_, List.mem_singleton_self _, moved⟩
    exact ⟨k, lt, same⟩
  · rintro ⟨k, lt, same⟩
    have inSrc := div_bounds srcSize k
    obtain ⟨copy, found, moved⟩ := (microCopy_moves dest src).mpr ⟨k, lt, inSrc, div_bounds destSize k, same⟩
    refine ⟨copy, (region copy).mpr ⟨k / src.regionSizeBytes, ?_, ?_⟩, moved⟩
    · rw [Nat.lt_div_iff_mul_lt srcSize]
      omega
    · rw [List.mem_singleton.mp found]
      refine List.mem_map_of_mem (List.mem_range'_1.mpr ⟨Nat.div_le_div_right inSrc.1, ?_⟩)
      have last : k / dest.regionSizeBytes ≤
          (min ((k / src.regionSizeBytes + 1) * src.regionSizeBytes) n - 1) / dest.regionSizeBytes :=
        Nat.div_le_div_right (by omega)
      omega

theorem address_ne {k l : Nat} (apart : dest.Disjoint src (k / dest.regionSizeBytes) (l / src.regionSizeBytes)) :
    dest.address k ≠ src.address l := by
  have first := Nat.mod_lt k destSize
  have second := Nat.mod_lt l srcSize
  simp only [address, Disjoint] at apart ⊢
  omega

theorem copyAcrossRegions_moves {α : Type} (sorting : Sorting) (memory : Nat → α)
    (destBytes : n ≤ dest.totalBytes) (srcBytes : n ≤ src.totalBytes)
    (apart : ∀ i < dest.numRegions, ∀ j < dest.numRegions, i ≠ j → dest.Disjoint dest i j)
    (foreign : ∀ i < dest.numRegions, ∀ j < src.numRegions, dest.Disjoint src i j) :
    ∃ final, dest.copyAcrossRegions src n sorting memory = .ok final ∧
      (∀ k < n, final (dest.address k) = memory (src.address k)) ∧
      ∀ a, (∀ k < n, a ≠ dest.address k) → final a = memory a := by
  have inRegion (set : BufferSet) {k : Nat} (size : 0 < set.regionSizeBytes) (le : n ≤ set.totalBytes) (lt : k < n) :
      k / set.regionSizeBytes < set.numRegions := (Nat.div_lt_iff_lt_mul size).mpr (lt.trans_le le)
  have injective {k l : Nat} (ltK : k < n) (ltL : l < n) (same : dest.address k = dest.address l) : k = l := by
    by_cases region : k / dest.regionSizeBytes = l / dest.regionSizeBytes
    · rw [← Nat.div_add_mod k dest.regionSizeBytes, ← Nat.div_add_mod l dest.regionSizeBytes]
      simp only [address, region] at same ⊢
      omega
    · exact absurd same (address_ne destSize destSize
        (apart _ (inRegion dest destSize destBytes ltK) _ (inRegion dest destSize destBytes ltL) region))
  obtain ⟨copies, returned⟩ : ∃ copies, dest.memoryCopies src n = .ok copies := ⟨_, if_neg (by omega)⟩
  have moves (d s : Nat) := (mergeAdjacent_moves sorting copies d s).trans (memoryCopies_moves destSize srcSize returned d s)
  have kept := foldl_memcpy (mergeAdjacent sorting copies) memory
  simp only [moves] at kept
  obtain ⟨moved, kept⟩ := kept (by
      rintro d s s' ⟨k, ltK, rfl, rfl⟩ ⟨l, ltL, same, rfl⟩
      rw [injective ltK ltL same])
    (by
      rintro d s s' ⟨k, ltK, rfl, rfl⟩ ⟨l, ltL, same, -⟩
      exact address_ne destSize srcSize
        (foreign _ (inRegion dest destSize destBytes ltL) _ (inRegion src srcSize srcBytes ltK)) same.symm)
  refine ⟨_, by rw [copyAcrossRegions, returned]; rfl, fun k lt => moved _ _ ⟨k, lt, rfl, rfl⟩, fun a free => kept a ?_⟩
  rintro s ⟨k, lt, same, -⟩
  exact free k lt same

end

-- Regions of equal distance.
def strided (start distance numRegions regionSizeBytes : Nat) : BufferSet :=
  ⟨fun i => start + distance * i, numRegions, regionSizeBytes⟩

theorem copyAcrossRegions_strided :
    ∃ final, (strided 100 10 2 3).copyAcrossRegions (strided 0 4 3 2) 5 .byInsertion id = .ok final ∧
      (∀ k < 5, final ((strided 100 10 2 3).address k) = (strided 0 4 3 2).address k) ∧
      ∀ a, (∀ k < 5, a ≠ (strided 100 10 2 3).address k) → final a = a := by
  refine copyAcrossRegions_moves (by decide) (by decide) .byInsertion id (by decide) (by decide) ?_ ?_ <;>
    simp only [strided, Disjoint] <;> omega

end BufferSet

end Tlm.Hexagon
