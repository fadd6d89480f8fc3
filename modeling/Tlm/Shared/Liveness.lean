import Mathlib.Data.List.Basic

set_option autoImplicit false

namespace Liveness

-- What an instruction defines and uses; `reads` are the uses that the sweep looks at.
structure Language (ι ρ : Type) where
  isPure : ι → Bool
  outputs : ι → List ρ
  reads : ι → List ρ
  uses : ι → List ρ
  uses_of_read : ∀ {inst r}, r ∈ reads inst → r ∈ uses inst

def select {ι : Type} : List Bool → List ι → List ι
  | true :: mask, inst :: rest => inst :: select mask rest
  | false :: mask, _ :: rest => select mask rest
  | _, _ => []

theorem select_sublist {ι : Type} (mask : List Bool) (insts : List ι) : (select mask insts).Sublist insts := by
  fun_induction select mask insts with
  | case1 mask inst rest ih => exact ih.cons_cons inst
  | case2 mask inst rest ih => exact ih.cons inst
  | case3 => exact List.nil_sublist _

namespace Language

section

variable {ι ρ : Type} (lang : Language ι ρ)

def Defined (known : List ρ) : List ι → Prop
  | [] => True
  | inst :: rest =>
    (∀ r ∈ lang.uses inst, r ∈ known) ∧ Defined (known ++ lang.outputs inst) rest

def Feeds (inst user : ι) : Prop :=
  ∃ r ∈ lang.outputs inst, r ∈ lang.reads user

-- Live in front of the code `after`: impure, or read by an instruction of it that is live.
inductive Live : ι → List ι → Prop
  | impure {inst : ι} {after : List ι} (impure : lang.isPure inst = false) : Live inst after
  | read {inst user : ι} {after between later : List ι} (split : after = between ++ user :: later)
      (live : Live user later) (feeds : lang.Feeds inst user) : Live inst after

def LiveIn (insts : List ι) (user : ι) : Prop :=
  ∃ before later, insts = before ++ user :: later ∧ lang.Live user later

def RemovesUnused (insts result : List ι) : Prop :=
  ∃ mask : List Bool, mask.length = insts.length ∧ select mask insts = result ∧
    ∀ before inst after, insts = before ++ inst :: after → mask[before.length]? = some false →
      lang.isPure inst = true ∧ ∀ r ∈ lang.outputs inst, ∀ user ∈ result, r ∉ lang.uses user

-- A pure instruction with an output that a live instruction uses is read by a later live one.
def Covered (insts : List ι) : Prop :=
  ∀ before inst after, insts = before ++ inst :: after → lang.isPure inst = true →
    (∃ user, lang.LiveIn insts user ∧ ∃ r ∈ lang.outputs inst, r ∈ lang.uses user) →
    ∃ user, lang.LiveIn after user ∧ lang.Feeds inst user

def Survives (inst : ι) (kept : List ι) : Prop :=
  ¬(lang.isPure inst = true ∧ ∀ r ∈ lang.outputs inst, r ∉ kept.flatMap lang.reads)

end

section

variable {ι ρ : Type} [DecidableEq ρ] (lang : Language ι ρ)

instance (inst : ι) (kept : List ι) : Decidable (lang.Survives inst kept) :=
  inferInstanceAs (Decidable (¬_))

def sweep : List ι → List ι
  | [] => []
  | inst :: rest => if lang.Survives inst (sweep rest) then inst :: sweep rest else sweep rest

def sweepMask : List ι → List Bool
  | [] => []
  | inst :: rest => decide (lang.Survives inst (lang.sweep rest)) :: sweepMask rest

end

variable {ι ρ : Type} {lang : Language ι ρ} {inst : ι} {after : List ι}

theorem live_iff :
    lang.Live inst after ↔
      lang.isPure inst = false ∨ ∃ user, lang.LiveIn after user ∧ lang.Feeds inst user := by
  constructor
  · intro live
    cases live with
    | impure impure => exact .inl impure
    | read split live feeds => exact .inr ⟨_, ⟨_, _, split, live⟩, feeds⟩
  · rintro (impure | ⟨user, ⟨between, later, split, live⟩, feeds⟩)
    · exact .impure impure
    · exact .read split live feeds

variable {user : ι} {rest : List ι}

theorem liveIn_cons :
    lang.LiveIn (inst :: rest) user ↔ (user = inst ∧ lang.Live inst rest) ∨ lang.LiveIn rest user := by
  constructor
  · rintro ⟨before, later, split, live⟩
    cases before with
    | nil =>
      cases split
      exact .inl ⟨rfl, live⟩
    | cons first before =>
      cases split
      exact .inr ⟨before, later, rfl, live⟩
  · rintro (⟨rfl, live⟩ | ⟨before, later, rfl, live⟩)
    · exact ⟨[], rest, rfl, live⟩
    · exact ⟨inst :: before, later, rfl, live⟩

variable {kept : List ι}

theorem survives_iff :
    lang.Survives inst kept ↔ lang.isPure inst = false ∨ ∃ user ∈ kept, lang.Feeds inst user := by
  simp only [Survives, not_and_or, Bool.not_eq_true, List.mem_flatMap]
  constructor
  · rintro (impure | reads)
    · exact .inl impure
    · push Not at reads
      obtain ⟨r, out, user, mem, read⟩ := reads
      exact .inr ⟨user, mem, r, out, read⟩
  · rintro (impure | ⟨user, mem, r, out, read⟩)
    · exact .inl impure
    · exact .inr fun unread => unread r out ⟨user, mem, read⟩

theorem Survives.of_subset {more : List ι} (survives : lang.Survives inst kept)
    (subset : kept ⊆ more) : lang.Survives inst more := by
  rw [survives_iff] at survives ⊢
  rcases survives with impure | ⟨user, mem, feeds⟩
  · exact .inl impure
  · exact .inr ⟨user, subset mem, feeds⟩

theorem Covered.tail (covered : lang.Covered (inst :: rest)) : lang.Covered rest := by
  rintro before next after rfl pure ⟨user, live, used⟩
  exact covered (inst :: before) next after rfl pure ⟨user, liveIn_cons.mpr (.inr live), used⟩

variable {insts : List ι}

theorem Covered.live {before : List ι} {r : ρ} (covered : lang.Covered insts)
    (split : insts = before ++ inst :: after) (live : lang.LiveIn insts user)
    (out : r ∈ lang.outputs inst) (used : r ∈ lang.uses user) : lang.Live inst after := by
  rw [live_iff]
  by_cases pure : lang.isPure inst = true
  · exact .inr (covered before inst after split pure ⟨user, live, r, out, used⟩)
  · exact .inl (Bool.not_eq_true _ ▸ pure)

theorem Defined.earlier {known : List ρ} {before later : List ι} {r : ρ}
    (defined : lang.Defined known (before ++ user :: later)) (used : r ∈ lang.uses user) :
    r ∈ known ∨ ∃ inst ∈ before, r ∈ lang.outputs inst := by
  induction before generalizing known with
  | nil => exact .inl (defined.1 r used)
  | cons first rest ih =>
    rcases ih defined.2 with mem | ⟨inst, mem, out⟩
    · rcases List.mem_append.mp mem with mem | out
      · exact .inl mem
      · exact .inr ⟨first, List.mem_cons_self, out⟩
    · exact .inr ⟨inst, List.mem_cons_of_mem _ mem, out⟩

theorem Defined.covered (defined : lang.Defined [] insts)
    (seen : ∀ inst ∈ insts, ∀ r ∈ lang.uses inst, r ∈ lang.reads inst)
    (once : (insts.flatMap lang.outputs).Nodup) : lang.Covered insts := by
  rintro before inst after split pure ⟨user, ⟨earlier, later, found, live⟩, r, out, used⟩
  obtain ⟨definer, mem, defines⟩ : ∃ definer ∈ earlier, r ∈ lang.outputs definer := by
    rw [found] at defined
    simpa using defined.earlier used
  -- The definer before the user is the instruction itself, so the user comes later.
  rcases List.append_eq_append_iff.mp (split.symm.trans found) with
    ⟨middle, rfl, rest⟩ | ⟨middle, rfl, -⟩
  · cases middle with
    | nil =>
      exfalso
      rw [split] at once
      simp only [List.append_nil, List.flatMap_append] at once mem
      exact (List.nodup_append.mp once).2.2 r (List.mem_flatMap.mpr ⟨definer, mem, defines⟩)
        r (List.mem_append_left _ out) rfl
    | cons first middle =>
      cases rest
      refine ⟨user, ⟨middle, later, rfl, live⟩, r, out, seen user ?_ r used⟩
      rw [found]
      exact List.mem_append_right _ List.mem_cons_self
  · exfalso
    rw [split] at once
    simp only [List.flatMap_append] at once
    exact (List.nodup_append.mp once).2.2 r
      (List.mem_append_left _ (List.mem_flatMap.mpr ⟨definer, mem, defines⟩)) r (List.mem_append_left _ out) rfl

variable [DecidableEq ρ]

instance decidableDefined (known : List ρ) :
    (insts : List ι) → Decidable (lang.Defined known insts)
  | [] => .isTrue trivial
  | inst :: rest =>
    @instDecidableAnd _ _ _ (decidableDefined (known ++ lang.outputs inst) rest)

theorem mem_sweep_cons :
    user ∈ lang.sweep (inst :: rest) ↔
      (user = inst ∧ lang.Survives inst (lang.sweep rest)) ∨ user ∈ lang.sweep rest := by
  rw [sweep]
  split
  next survives => simp [survives]
  next dead => simp [dead]

theorem mem_sweep : user ∈ lang.sweep insts ↔ lang.LiveIn insts user := by
  induction insts generalizing user with
  | nil => simp [sweep, LiveIn]
  | cons inst rest ih => simp only [mem_sweep_cons, liveIn_cons, survives_iff, live_iff, ih]

theorem survives_sweep : lang.Survives inst (lang.sweep after) ↔ lang.Live inst after := by
  simp only [survives_iff, live_iff, mem_sweep]

@[simp] theorem sweepMask_length (insts : List ι) : (lang.sweepMask insts).length = insts.length := by
  induction insts with
  | nil => rfl
  | cons inst rest ih => simp [sweepMask, ih]

theorem select_sweepMask (insts : List ι) : select (lang.sweepMask insts) insts = lang.sweep insts := by
  induction insts with
  | nil => rfl
  | cons inst rest ih =>
    rw [sweepMask, sweep]
    split
    next survives => rw [decide_eq_true survives, select, ih]
    next dead => rw [decide_eq_false dead, select, ih]

theorem sweepMask_at (before : List ι) (inst : ι) (after : List ι) :
    (lang.sweepMask (before ++ inst :: after))[before.length]? =
      some (decide (lang.Survives inst (lang.sweep after))) := by
  induction before with
  | nil => rfl
  | cons first before ih => simpa [sweepMask] using ih

variable (lang) in
def Justified : List ι → Prop
  | [] => True
  | inst :: rest => lang.Survives inst rest ∧ Justified rest

theorem sweep_justified (insts : List ι) : lang.Justified (lang.sweep insts) := by
  induction insts with
  | nil => trivial
  | cons inst rest ih =>
    rw [sweep]
    split
    next survives => exact ⟨survives, ih⟩
    next dead => exact ih

theorem Justified.sublist_sweep (justified : lang.Justified kept) (sublist : kept.Sublist insts) :
    kept.Sublist (lang.sweep insts) := by
  induction sublist with
  | slnil => exact List.nil_sublist _
  | @cons kept rest inst sublist ih =>
    rw [sweep]
    split
    next survives => exact (ih justified).cons inst
    next dead => exact ih justified
  | @cons_cons kept rest inst sublist ih =>
    have tail := ih justified.2
    have survives : lang.Survives inst (lang.sweep rest) :=
      justified.1.of_subset tail.subset
    rw [sweep, if_pos survives]
    exact tail.cons_cons inst

theorem mask_eq_sweepMask {mask : List Bool} (size : mask.length = insts.length)
    (same : select mask insts = lang.sweep insts) : mask = lang.sweepMask insts := by
  induction insts generalizing mask with
  | nil => simpa [sweepMask] using size
  | cons inst rest ih =>
    cases mask with
    | nil => simp at size
    | cons flag mask =>
      have fits : mask.length = rest.length := by simpa using size
      rw [sweepMask]
      by_cases survives : lang.Survives inst (lang.sweep rest)
      · rw [sweep, if_pos survives] at same
        cases flag with
        | true =>
          rw [select, List.cons.injEq] at same
          rw [decide_eq_true survives, ← ih fits same.2]
        | false =>
          -- One more instruction than the sweep keeps of the rest does not fit.
          exfalso
          have justified : lang.Justified (inst :: lang.sweep rest) :=
            ⟨survives, sweep_justified rest⟩
          have inside : (inst :: lang.sweep rest).Sublist rest :=
            same ▸ select_sublist mask rest
          have short := (justified.sublist_sweep inside).length_le
          exact Nat.not_succ_le_self _ short
      · rw [sweep, if_neg survives] at same
        cases flag with
        | true =>
          exfalso
          have justified := @sweep_justified _ _ lang _ rest
          rw [← same] at justified
          apply survives
          apply justified.1.of_subset
          rw [← same]
          exact List.subset_cons_self _ _
        | false =>
          rw [decide_eq_false survives, ← ih fits same]

theorem removesUnused_iff_covered (insts : List ι) :
    lang.RemovesUnused insts (lang.sweep insts) ↔ lang.Covered insts := by
  constructor
  · rintro ⟨mask, size, same, removed⟩ before inst after split pure ⟨user, live, r, out, used⟩
    have flag := @sweepMask_at _ _ lang _ before inst after
    rw [mask_eq_sweepMask size same] at removed
    by_cases survives : lang.Survives inst (lang.sweep after)
    · rcases live_iff.mp (survives_sweep.mp survives) with impure | read
      · rw [pure] at impure
        cases impure
      · exact read
    · rw [← split, decide_eq_false survives] at flag
      exact absurd used ((removed before inst after split flag).2 r out user (mem_sweep.mpr live))
  · intro covered
    refine ⟨lang.sweepMask insts, sweepMask_length insts, select_sweepMask insts, ?_⟩
    intro before inst after split flag
    rw [split, sweepMask_at, Option.some.injEq, decide_eq_false_iff_not, survives_sweep] at flag
    constructor
    · by_contra impure
      exact flag (.impure (Bool.not_eq_true _ ▸ impure))
    · intro r out user mem used
      exact flag (covered.live split (mem_sweep.mp mem) out used)

-- `kept` are the outputs of the kept instructions so far, among all `known` ones.
theorem Covered.defined_sweep {known kept : List ρ} (covered : lang.Covered insts)
    (enough : ∀ user r, lang.LiveIn insts user → r ∈ lang.uses user → r ∈ known → r ∈ kept)
    (defined : lang.Defined known insts) : lang.Defined kept (lang.sweep insts) := by
  induction insts generalizing known kept with
  | nil => trivial
  | cons inst rest ih =>
    rw [sweep]
    split
    next survives =>
      have live := survives_sweep.mp survives
      constructor
      · intro r used
        exact enough inst r (liveIn_cons.mpr (.inl ⟨rfl, live⟩)) used (defined.1 r used)
      · apply ih covered.tail _ defined.2
        intro user r live used mem
        rcases List.mem_append.mp mem with before | out
        · exact List.mem_append_left _ (enough user r (liveIn_cons.mpr (.inr live)) used before)
        · exact List.mem_append_right _ out
    next dead =>
      apply ih covered.tail _ defined.2
      intro user r live used mem
      have liveIn : lang.LiveIn (inst :: rest) user := liveIn_cons.mpr (.inr live)
      rcases List.mem_append.mp mem with before | out
      · exact enough user r liveIn used before
      · exact absurd (survives_sweep.mpr (covered.live (List.nil_append _).symm liveIn out used)) dead

end Language

end Liveness
