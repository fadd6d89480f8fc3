import Mathlib.Data.List.Basic
import Mathlib.Data.List.Nodup

set_option autoImplicit false

namespace Cpp

variable {α κ β ι : Type}

def Holds (held : κ → Option (List α)) (key : κ) (item : α) : Prop :=
  ∃ items, held key = some items ∧ item ∈ items

theorem holds_iff {held : κ → Option (List α)} {key : κ} {item : α} :
    Holds held key item ↔ item ∈ (held key).getD [] := by
  cases listed : held key <;> simp [Holds, listed]

def Sits (place : α → Option κ) (held : κ → Option (List α)) (item : α) (key : κ) : Prop :=
  place item = some key ∧ ∀ other, Holds held other item ↔ other = key

structure Agrees (place : α → Option κ) (held : κ → Option (List α)) : Prop where
  inverse : ∀ item key, place item = some key ↔ Holds held key item
  once : ∀ {key items}, held key = some items → items.Nodup
  filled : ∀ {key items}, held key = some items → items ≠ []

theorem agrees_empty : Agrees (fun _ : α => (none : Option κ)) (fun _ => none) := by
  constructor <;> simp [Holds]

section

variable {place : α → Option κ} {held : κ → Option (List α)} {item : α} {key : κ}

theorem Agrees.sits (agrees : Agrees place held) (placed : place item = some key) : Sits place held item key := by
  refine ⟨placed, fun other => ?_⟩
  rw [← agrees.inverse, placed, Option.some.injEq]
  exact eq_comm

theorem Sits.unique {left right : κ} (first : Sits place held item left)
    (second : Sits place held item right) : left = right :=
  Option.some.inj (first.1.symm.trans second.1)

variable [DecidableEq α] [DecidableEq κ]

theorem Agrees.erase (agrees : Agrees place held) {items : List α} (placed : place item = some key)
    (listed : held key = some items) : Agrees (fun other => if other = item then none else place other)
      (fun other => if other = key then
        (if (items.erase item).isEmpty then none else some (items.erase item)) else held other) := by
  have once := agrees.once listed
  -- what is still listed at a key
  have holds : ∀ other k, Holds (fun k => if k = key then
      (if (items.erase item).isEmpty then none else some (items.erase item)) else held k) k other ↔
        other ≠ item ∧ Holds held k other := by
    intro other k
    by_cases here : k = key
    · subst here
      simp only [Holds, listed, Option.some.injEq, exists_eq_left', ← once.mem_erase_iff]
      cases items.erase item <;> simp
    · simp only [Holds, if_neg here]
      constructor
      · intro member
        refine ⟨?_, member⟩
        rintro rfl
        exact here (((agrees.sits placed).2 k).mp member)
      · exact fun both => both.2
  constructor
  · intro other k
    rw [holds, ← agrees.inverse]
    by_cases same : other = item <;> simp
  · intro k left
    by_cases here : k = key
    · intro found
      simp only [here, if_true, Option.ite_none_left_eq_some, Option.some.injEq] at found
      exact found.2 ▸ once.erase item
    · simpa [here] using agrees.once
  · intro k left
    by_cases here : k = key
    · intro found
      simp only [here, if_true, Option.ite_none_left_eq_some, Option.some.injEq, List.isEmpty_iff] at found
      exact found.2 ▸ found.1
    · simpa [here] using agrees.filled

theorem Agrees.insert (agrees : Agrees place held) (absent : place item = none) (key : κ) :
    Agrees (fun other => if other = item then some key else place other)
      (fun other => if other = key then some ((held key).getD [] ++ [item]) else held other) := by
  have unlisted : ∀ k, ¬Holds held k item := by
    intro k member
    rw [← agrees.inverse, absent] at member
    cases member
  constructor
  · intro other k
    by_cases here : k = key
    · subst here
      have added : Holds (fun j => if j = k then some ((held k).getD [] ++ [item]) else held j) k
          other ↔ other = item ∨ Holds held k other := by
        rw [holds_iff, holds_iff]
        simp [or_comm]
      rw [added]
      by_cases same : other = item
      · simp [same]
      · simpa [same] using agrees.inverse other k
    · have kept : Holds (fun j => if j = key then some ((held key).getD [] ++ [item]) else held j) k
          other ↔ Holds held k other := by
        simp [Holds, here]
      rw [kept]
      by_cases same : other = item
      · subst same
        simpa [Ne.symm here] using unlisted k
      · simpa [same] using agrees.inverse other k
  · intro k items found
    by_cases here : k = key
    · simp only [here, if_true, Option.some.injEq] at found
      subst found
      refine List.Nodup.append ?_ (List.nodup_singleton item) ?_
      · cases listed : held key with
        | none => simp
        | some items => exact agrees.once listed
      · rw [List.disjoint_singleton, ← holds_iff]
        exact unlisted key
    · exact agrees.once (by simpa [here] using found)
  · intro k items found
    by_cases here : k = key
    · simp only [here, if_true, Option.some.injEq] at found
      simp [← found]
    · exact agrees.filled (by simpa [here] using found)

end

theorem Agrees.rename {place : α → Option κ} {held : κ → Option (List α)} {place' : β → Option ι}
    {held' : ι → Option (List β)} {f : α → β} {g : κ → ι}
    (agrees : Agrees place held) (apart : Function.Injective f)
    (placed : ∀ b j, place' b = some j ↔ ∃ a k, f a = b ∧ g k = j ∧ place a = some k)
    (listed : ∀ j bs, held' j = some bs ↔ ∃ k as, g k = j ∧ as.map f = bs ∧ held k = some as) :
    Agrees place' held' := by
  constructor
  · intro b j
    simp only [placed, Holds, listed, agrees.inverse]
    constructor
    · rintro ⟨a, k, rfl, rfl, as, found, member⟩
      exact ⟨as.map f, ⟨k, as, rfl, rfl, found⟩, List.mem_map_of_mem member⟩
    · rintro ⟨_, ⟨k, as, rfl, rfl, found⟩, member⟩
      obtain ⟨a, inside, rfl⟩ := List.mem_map.mp member
      exact ⟨a, k, rfl, rfl, as, found, inside⟩
  · intro j bs found
    obtain ⟨k, as, -, rfl, origin⟩ := (listed j bs).mp found
    exact (agrees.once origin).map apart
  · intro j bs found
    obtain ⟨k, as, -, rfl, origin⟩ := (listed j bs).mp found
    simpa using agrees.filled origin

section

variable {place place' : α → Option κ} {held held' : κ → Option (List α)} {target : κ → κ}

def KeepsLists (held held' : κ → Option (List α)) : Prop :=
  ∀ {key items}, held' key = some items → ∃ old, held old = some items

theorem Agrees.relocate (agrees : Agrees place held) (lists : KeepsLists held held')
    (moved : ∀ item, place' item = (place item).map target)
    (sits : ∀ item key, Sits place held item key → Sits place' held' item (target key)) :
    Agrees place' held' := by
  constructor
  · intro item key
    constructor
    · intro placed
      rw [moved, Option.map_eq_some_iff] at placed
      obtain ⟨old, placed, same⟩ := placed
      exact ((sits item old (agrees.sits placed)).2 key).mpr same.symm
    · rintro ⟨items, found, member⟩
      obtain ⟨old, listed⟩ := lists found
      have placed := (agrees.inverse item old).mpr ⟨items, listed, member⟩
      have there := sits item old (agrees.sits placed)
      rw [(there.2 key).mp ⟨items, found, member⟩]
      exact there.1
  · intro key items found
    obtain ⟨old, listed⟩ := lists found
    exact agrees.once listed
  · intro key items found
    obtain ⟨old, listed⟩ := lists found
    exact agrees.filled listed

theorem Agrees.apart (agrees : Agrees place held) (after : Agrees place' held')
    (lists : KeepsLists held held') (moved : ∀ item, place' item = (place item).map target)
    {left right : κ} (first : held left ≠ none) (second : held right ≠ none)
    (same : target left = target right) : left = right := by
  obtain ⟨as, listed⟩ := Option.ne_none_iff_exists'.mp first
  obtain ⟨bs, listed'⟩ := Option.ne_none_iff_exists'.mp second
  obtain ⟨a, member⟩ := List.exists_mem_of_ne_nil as (agrees.filled listed)
  obtain ⟨b, member'⟩ := List.exists_mem_of_ne_nil bs (agrees.filled listed')
  have placed := (agrees.inverse a left).mpr ⟨as, listed, member⟩
  have placed' := (agrees.inverse b right).mpr ⟨bs, listed', member'⟩
  have there : place' a = some (target left) := by simp [moved, placed]
  have there' : place' b = some (target left) := by simp [moved, placed', same]
  obtain ⟨items, found, inside⟩ := (after.inverse a _).mp there
  obtain ⟨items', found', inside'⟩ := (after.inverse b _).mp there'
  obtain rfl : items = items' := Option.some.inj (found.symm.trans found')
  obtain ⟨old, origin⟩ := lists found
  have one := (agrees.inverse a old).mpr ⟨items, origin, inside⟩
  have two := (agrees.inverse b old).mpr ⟨items, origin, inside'⟩
  rw [placed] at one
  rw [placed'] at two
  exact (Option.some.inj one).trans (Option.some.inj two).symm

end

end Cpp
