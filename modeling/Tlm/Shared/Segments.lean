import Mathlib.Algebra.GroupWithZero.Nat
import Mathlib.Data.List.Basic

set_option autoImplicit false

namespace Segments

structure Segment where
  start : Nat
  length : Nat
  deriving DecidableEq, Repr

def Segment.stop (s : Segment) : Nat :=
  s.start + s.length

def Segment.Covers (s : Segment) (place : Nat) : Prop :=
  s.start ≤ place ∧ place < s.stop

instance (s : Segment) (place : Nat) : Decidable (s.Covers place) :=
  inferInstanceAs (Decidable (_ ∧ _))

def Apart (s t : Segment) : Prop :=
  ∀ place, ¬ (s.Covers place ∧ t.Covers place)

theorem Apart.symm {s t : Segment} (apart : Apart s t) : Apart t s :=
  fun place both => apart place both.symm

theorem apart_of_stop_le {s t : Segment} (before : s.stop ≤ t.start) : Apart s t := by
  rintro place ⟨⟨_, below⟩, above, _⟩
  omega

def Tiles : Nat → List Segment → Nat → Prop
  | first, [], last => first = last
  | first, s :: rest, last => s.start = first ∧ 0 < s.length ∧ Tiles s.stop rest last

variable {first last : Nat} {segments : List Segment} {s t : Segment}

section

variable (tiles : Tiles first segments last)

include tiles

theorem Tiles.le : first ≤ last := by
  induction segments generalizing first with
  | nil => exact Nat.le_of_eq tiles
  | cons s rest ih =>
    obtain ⟨rfl, _, tail⟩ := tiles
    exact Nat.le_trans (Nat.le_add_right _ _) (ih tail)

theorem Tiles.concat {length : Nat} (some : 0 < length) :
    Tiles first (segments ++ [⟨last, length⟩]) (last + length) := by
  induction segments generalizing first with
  | nil => exact ⟨Eq.symm tiles, some, rfl⟩
  | cons s rest ih => exact ⟨tiles.1, tiles.2.1, ih tiles.2.2⟩

theorem Tiles.inside (member : s ∈ segments) :
    first ≤ s.start ∧ 0 < s.length ∧ s.stop ≤ last := by
  induction segments generalizing first with
  | nil => cases member
  | cons head rest ih =>
    obtain ⟨rfl, some, tail⟩ := tiles
    rcases List.mem_cons.1 member with rfl | later
    · exact ⟨Nat.le_refl _, some, tail.le⟩
    · obtain ⟨low, nonempty, high⟩ := ih tail later
      exact ⟨Nat.le_trans (Nat.le_add_right _ _) low, nonempty, high⟩

theorem Tiles.length_le : first + segments.length ≤ last := by
  induction segments generalizing first with
  | nil => exact Nat.le_of_eq tiles
  | cons s rest ih =>
    obtain ⟨rfl, some, tail⟩ := tiles
    have := ih tail
    rw [List.length_cons]
    unfold Segment.stop at this
    omega

theorem Tiles.pairwise : segments.Pairwise fun s t => s.stop ≤ t.start := by
  induction segments generalizing first with
  | nil => exact .nil
  | cons s rest ih =>
    obtain ⟨rfl, _, tail⟩ := tiles
    exact .cons (fun t member => (tail.inside member).1) (ih tail)

end

theorem Tiles.eq_of_start {α : Type} {segment : α → Segment} {items : List α}
    (tiles : Tiles first (items.map segment) last) {x y : α} (memberX : x ∈ items)
    (memberY : y ∈ items) (same : (segment x).start = (segment y).start) : x = y := by
  induction items generalizing first with
  | nil => cases memberX
  | cons head rest ih =>
    obtain ⟨rfl, some, tail⟩ := tiles
    have later {z : α} (member : z ∈ rest) : (segment head).start < (segment z).start :=
      Nat.lt_of_lt_of_le (Nat.lt_add_of_pos_right some) (tail.inside (List.mem_map_of_mem member)).1
    rcases List.mem_cons.1 memberX with rfl | restX
    · rcases List.mem_cons.1 memberY with rfl | restY
      · rfl
      · exact absurd same (Nat.ne_of_lt (later restY))
    · rcases List.mem_cons.1 memberY with rfl | restY
      · exact absurd same.symm (Nat.ne_of_lt (later restX))
      · exact ih tail restX restY

def Segment.count (s : Segment) (place : Nat) : Nat :=
  if s.Covers place then 1 else 0

def coverage (segments : List Segment) (place : Nat) : Nat :=
  (segments.map (·.count place)).sum

@[simp] theorem coverage_nil (place : Nat) : coverage [] place = 0 := rfl

@[simp] theorem coverage_cons (s : Segment) (rest : List Segment) (place : Nat) :
    coverage (s :: rest) place = s.count place + coverage rest place := by
  simp [coverage]

@[simp] theorem coverage_append (left right : List Segment) (place : Nat) :
    coverage (left ++ right) place = coverage left place + coverage right place := by
  simp [coverage]

theorem coverage_perm {left right : List Segment} (perm : left.Perm right) (place : Nat) :
    coverage left place = coverage right place :=
  (perm.map _).sum_nat

theorem coverage_pos_iff {place : Nat} : 0 < coverage segments place ↔ ∃ s ∈ segments, s.Covers place := by
  induction segments with
  | nil => simp
  | cons s rest ih =>
    by_cases covers : s.Covers place
    · refine iff_of_true ?_ ⟨s, List.mem_cons_self, covers⟩
      rw [coverage_cons, Segment.count, if_pos covers]
      omega
    · simp [Segment.count, covers, ih]

def Segment.join (s t : Segment) : Segment :=
  ⟨s.start, s.length + t.length⟩

theorem Segment.join_stop (touches : s.stop = t.start) : (s.join t).stop = t.stop := by
  simp only [Segment.join, Segment.stop] at touches ⊢
  omega

theorem Segment.join_count (touches : s.stop = t.start) (place : Nat) :
    (s.join t).count place = s.count place + t.count place := by
  simp only [Segment.count] at touches ⊢
  split_ifs <;> simp only [Segment.Covers, Segment.stop, Segment.join] at * <;> omega

def Segment.toList (s : Segment) : List Segment :=
  if s.length = 0 then [] else [s]

theorem Segment.mem_toList {s t : Segment} : t ∈ s.toList ↔ t = s ∧ 0 < s.length := by
  unfold Segment.toList
  split <;> simp <;> omega

@[simp] theorem coverage_toList (s : Segment) (place : Nat) : coverage s.toList place = s.count place := by
  unfold Segment.toList
  split
  next empty => simp [Segment.count, Segment.Covers, Segment.stop, empty]
  · simp

theorem apart_of_coverage (once : ∀ place, coverage (s :: segments) place ≤ 1) (member : t ∈ segments) :
    Apart s t := by
  rintro place ⟨coversS, coversT⟩
  have single := once place
  have again := coverage_pos_iff.2 ⟨t, member, coversT⟩
  simp only [coverage_cons, Segment.count, if_pos coversS] at single
  omega

theorem Apart.order (apart : Apart s t) (someS : 0 < s.length) (someT : 0 < t.length) :
    s.stop ≤ t.start ∨ t.stop ≤ s.start := by
  by_contra crossing
  refine apart (max s.start t.start) ?_
  simp only [Segment.Covers, Segment.stop] at *
  omega

def Separated (segments : List Segment) : Prop :=
  segments.Pairwise fun s t => s.stop < t.start

instance (segments : List Segment) : Decidable (Separated segments) :=
  inferInstanceAs (Decidable (List.Pairwise _ _))

theorem Separated.shrink {left right : List Segment} (separated : Separated (left ++ s :: right))
    (start : s.start ≤ t.start) (stop : t.stop ≤ s.stop) : Separated (left ++ t.toList ++ right) := by
  unfold Segment.toList
  split
  · have rest := List.Sublist.append_left (List.sublist_cons_self s right) left
    rw [List.append_nil]
    exact separated.sublist rest
  · simp only [Separated, List.append_assoc, List.singleton_append, List.pairwise_append,
      List.pairwise_cons, List.forall_mem_cons] at separated ⊢
    obtain ⟨before, ⟨behind, after⟩, across⟩ := separated
    refine ⟨before, ⟨fun u member => ?_, after⟩, fun u member => ⟨?_, (across u member).2⟩⟩
    · exact Nat.lt_of_le_of_lt stop (behind u member)
    · exact Nat.lt_of_lt_of_le (across u member).1 start

theorem Separated.eq_singleton {whole : Segment} (separated : Separated segments)
    (some : ∀ s ∈ segments, 0 < s.length) (present : 0 < whole.length)
    (covered : ∀ place, coverage segments place = coverage [whole] place) : segments = [whole] := by
  have inside (s : Segment) (member : s ∈ segments) (place : Nat) (covers : s.Covers place) :
      whole.Covers place := by
    have once := coverage_pos_iff.2 ⟨s, member, covers⟩
    rw [covered, coverage_pos_iff] at once
    simpa using once
  have reached (place : Nat) (covers : whole.Covers place) : ∃ s ∈ segments, s.Covers place :=
    coverage_pos_iff.1 (covered place ▸ coverage_pos_iff.2 ⟨whole, by simp, covers⟩)
  simp only [Segment.Covers, Segment.stop] at inside reached
  cases segments with
  | nil => simpa using reached _ ⟨Nat.le_refl _, Nat.lt_add_of_pos_right present⟩
  | cons s rest =>
    obtain ⟨behind, -⟩ := List.pairwise_cons.1 separated
    have someS := some s (by simp)
    have first := inside s (by simp) s.start (by omega)
    have last := inside s (by simp) (s.start + s.length - 1) (by omega)
    have only {t : Segment} (member : t ∈ rest) : s.start + s.length < t.start := behind t member
    -- Where the whole begins, and where the first segment ends, only that segment can cover.
    have start : s.start ≤ whole.start := by
      obtain ⟨t, member, covers⟩ := reached whole.start (by omega)
      rcases List.mem_cons.1 member with rfl | later
      · exact covers.1
      · have := only later
        omega
    have stop : whole.start + whole.length ≤ s.start + s.length := by
      by_contra short
      obtain ⟨t, member, covers⟩ := reached (s.start + s.length) (by omega)
      rcases List.mem_cons.1 member with rfl | later
      · omega
      · have := only later
        omega
    have same : s = whole := by
      cases s
      cases whole
      simp only [Segment.mk.injEq] at *
      omega
    have empty : rest = [] := by
      refine List.eq_nil_iff_forall_not_mem.2 fun t member => ?_
      have := only member
      have := some t (by simp [member])
      have := inside t (by simp [member]) t.start (by omega)
      omega
    rw [same, empty]

end Segments
