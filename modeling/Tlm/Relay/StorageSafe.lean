import Mathlib.Data.List.Count
import Tlm.Relay.RefCounts

set_option autoImplicit false

namespace Tlm.Relay

open Cpp Traced

variable {Node : Type} [DecidableEq Node]

def Needed (graph : Graph Node) (held future : List (Value Node)) (v : Value Node) : Prop :=
  v ∈ future ∨ v ∈ held ∨ (graph.view v.1).isPinned = true

def pins (graph : Graph Node) (t : Value Node) : Nat :=
  if (graph.view t.1).isPinned then 1 else 0

structure Safe (graph : Graph Node) (own : Value Node → Option (Value Node)) (past : List Node)
    (held future : List (Value Node)) (a : TokenAllocator Node) : Prop where
  counted : ∀ t id, (a.tokens t).storageId = some id →
    ((future.countP fun v => own v = some t) + pins graph t : Nat) ≤ (a.tokens t).refCounter
  prototype : ∀ v, own v = none → (a.tokens v).storageId = none ∧
    (a.tokens v).refCounter = StorageAllocaInit.readers graph v
  self : ∀ t id, (a.tokens t).storageId = some id → own t = some t
  allocated : ∀ v t, own v = some t → ∃ id, (a.tokens t).storageId = some id
  pinned : ∀ v t, own v = some t → (graph.view v.1).isPinned = true → t = v
  started : ∀ v t, own v = some t → (graph.view v.1).isPinned = true ∨ v.1 ∈ past ∨ v ∈ held
  share : ∀ v w t u, own v = some t → own w = some u → Needed graph held future v →
    Needed graph held future w → (a.tokens t).storageId = (a.tokens u).storageId →
    t = u ∧ graph.Aliases v w
  fresh : ∀ t id, (a.tokens t).storageId = some id → id < a.storageIds
  kind : ∀ t u id, (a.tokens t).storageId = some id → (a.tokens u).storageId = some id → t ≠ u →
    is2DStorage graph t = true ∧ is2DStorage graph u = true
  freeNodup : (a.free.map Prod.snd).Nodup
  freeFlat : ∀ e ∈ a.free, is2DStorage graph e.2 = false ∧ own e.2 = some e.2
  freeIdle : ∀ e ∈ a.free, ∀ v, own v = some e.2 → ¬ Needed graph held future v
  listBound : ∀ id ∈ a.freeList, id < a.storageIds
  listKind : ∀ id ∈ a.freeList, ∀ t, (a.tokens t).storageId = some id → is2DStorage graph t = true
  listIdle : ∀ id ∈ a.freeList, ∀ v t, own v = some t → (a.tokens t).storageId = some id →
    ¬ Needed graph held future v
  blocks : ∀ id block, a.blocks.lookup id = some block →
    (a.tokens block.token).storageId = some id ∧ is2DStorage graph block.token = true
  heldApart : held.Pairwise fun v w => ∀ t u, own v = some t → own w = some u →
    (a.tokens t).storageId ≠ (a.tokens u).storageId
  apart : ∀ v w t u, own v = some t → own w = some u → v ≠ w →
    (a.tokens t).storageId = (a.tokens u).storageId → graph.Aliases v w ∨
      ∀ k, ¬ (graph.LiveAt graph.executionOrder v k ∧ graph.LiveAt graph.executionOrder w k)

structure Joins (graph : Graph Node) (v t : Value Node) (id : Nat) (a a' : TokenAllocator Node) :
    Prop where
  same : ∀ u, u ≠ t → a'.tokens u = a.tokens u
  target : t = v ∨ (a.tokens t).storageId = some id
  storage : (a'.tokens t).storageId = some id
  below : id < a'.storageIds
  mono : a.storageIds ≤ a'.storageIds
  alike : ∀ u, u ≠ t → (a.tokens u).storageId = some id →
    is2DStorage graph u = true ∧ is2DStorage graph t = true
  free : a'.free.Sublist a.free
  unfree : ∀ e ∈ a'.free, e.2 ≠ t
  list : ∀ i ∈ a'.freeList, i ∈ a.freeList ∧ i ≠ id
  blocks : ∀ i block, a'.blocks.lookup i = some block →
    (a'.tokens block.token).storageId = some i ∧ is2DStorage graph block.token = true

section

variable {graph : Graph Node} {own : Value Node → Option (Value Node)} {past : List Node}
  {held future : List (Value Node)} {a a' : TokenAllocator Node} {v t : Value Node} {id : Nat}

variable {u : Value Node}

theorem countP_update_ne (other : u ≠ t) (unowned : own v = none) :
    (future.countP fun w => Function.update own v (some t) w = some u) =
      future.countP fun w => own w = some u := by
  refine List.countP_congr fun w _ => ?_
  by_cases same : w = v
  · simp [same, unowned, other.symm]
  · simp [same]

theorem countP_update_self (unowned : own v = none) :
    (future.countP fun w => Function.update own v (some t) w = some t) =
      (future.countP fun w => own w = some t) + future.count v := by
  induction future with
  | nil => rfl
  | cons w rest ih =>
    rw [List.countP_cons, List.countP_cons, List.count_cons, ih]
    by_cases same : w = v
    · subst same
      simp [unowned]
      omega
    · simp [same]
      omega

variable {w : Value Node}

theorem Safe.storage_unowned (safe : Safe graph own past held future a) (unowned : own v = none)
    (owned : own w = some u) : u ≠ v := by
  rintro rfl
  obtain ⟨i, found⟩ := safe.allocated w u owned
  cases (safe.prototype u unowned).1.symm.trans found

theorem Joins.kept (joins : Joins graph v t id a a') (other : u ≠ v) :
    (a'.tokens u).storageId = (a.tokens u).storageId := by
  by_cases same : u = t
  · subst same
    rw [joins.storage, joins.target.resolve_left other]
  · rw [joins.same u same]

omit [DecidableEq Node] in
theorem needed_of_append (other : w ≠ v) (needed : Needed graph (held ++ [v]) future w) :
    Needed graph held future w := by
  simpa [Needed, other] using needed

theorem Joins.owner (joins : Joins graph v t id a a') (safe : Safe graph own past held future a)
    (unowned : own v = none) (owned : Function.update own v (some t) w = some u) :
    (w = v ∧ u = t ∧ (a'.tokens u).storageId = some id) ∨
      (w ≠ v ∧ own w = some u ∧ (a'.tokens u).storageId = (a.tokens u).storageId) := by
  by_cases same : w = v
  · subst same
    cases (Function.update_self w (some t) own).symm.trans owned
    exact .inl ⟨rfl, rfl, joins.storage⟩
  · rw [Function.update_of_ne same] at owned
    exact .inr ⟨same, owned, joins.kept (safe.storage_unowned unowned owned)⟩

theorem Joins.holder (joins : Joins graph v t id a a') {i : Nat} (found : (a'.tokens u).storageId = some i) :
    (u = t ∧ i = id) ∨ (u ≠ t ∧ (a.tokens u).storageId = some i) := by
  by_cases same : u = t
  · subst same
    cases joins.storage.symm.trans found
    exact .inl ⟨rfl, rfl⟩
  · exact .inr ⟨same, joins.same u same ▸ found⟩

theorem Safe.join (safe : Safe graph own past held future a) (unowned : own v = none) (new : v ∉ held)
    (joins : Joins graph v t id a a')
    (enough : ((future.countP fun w => own w = some t) + future.count v + pins graph t : Nat) ≤
      (a'.tokens t).refCounter) (pin : (graph.view v.1).isPinned = true → t = v)
    (shared : ∀ w u, own w = some u → (a.tokens u).storageId = some id → Needed graph held future w →
      u = t ∧ graph.Aliases v w) (alone : ∀ w ∈ held, ∀ u, own w = some u → (a.tokens u).storageId ≠ some id)
    (apart : ∀ w u, own w = some u → (a.tokens u).storageId = some id → graph.Aliases v w ∨
      ∀ k, ¬ (graph.LiveAt graph.executionOrder v k ∧ graph.LiveAt graph.executionOrder w k)) :
    Safe graph (Function.update own v (some t)) past (held ++ [v]) future a' := by
  have still {u : Value Node} {i : Nat} (found : (a.tokens u).storageId = some i) :
      Function.update own v (some t) u = some u := by
    have owned := safe.self u i found
    rw [Function.update_of_ne (safe.storage_unowned unowned owned), owned]
  constructor
  case counted =>
    intro u i found
    rcases joins.holder found with ⟨rfl, -⟩ | ⟨other, before⟩
    · rw [countP_update_self unowned]
      exact enough
    · rw [countP_update_ne other unowned, joins.same u other]
      exact safe.counted u i before
  case prototype =>
    intro w none
    have other : w ≠ v := by
      rintro rfl
      simp at none
    rw [Function.update_of_ne other] at none
    have apartToken : w ≠ t := by
      rintro rfl
      have found := joins.target.resolve_left other
      cases (safe.self w id found).symm.trans none
    rw [joins.same w apartToken]
    exact safe.prototype w none
  case self =>
    intro u i found
    rcases joins.holder found with ⟨rfl, -⟩ | ⟨-, before⟩
    · rcases joins.target with rfl | before
      · exact Function.update_self _ _ _
      · exact still before
    · exact still before
  case allocated =>
    intro w u owned
    rcases joins.owner safe unowned owned with ⟨-, -, storage⟩ | ⟨-, owned, kept⟩
    · exact ⟨id, storage⟩
    · rw [kept]
      exact safe.allocated w u owned
  case pinned =>
    intro w u owned isPinned
    rcases joins.owner safe unowned owned with ⟨rfl, rfl, -⟩ | ⟨-, owned, -⟩
    · exact pin isPinned
    · exact safe.pinned w u owned isPinned
  case started =>
    intro w u owned
    rcases joins.owner safe unowned owned with ⟨rfl, -, -⟩ | ⟨-, owned, -⟩
    · simp
    · exact (safe.started w u owned).imp_right (.imp_right (List.mem_append_left _))
  case share =>
    intro w x u u' owned owned' needed needed' equal
    rcases joins.owner safe unowned owned with ⟨rfl, rfl, storage⟩ | ⟨other, before, kept⟩ <;>
      rcases joins.owner safe unowned owned' with ⟨rfl, rfl, storage'⟩ | ⟨other', before', kept'⟩
    · exact ⟨rfl, .refl _⟩
    · rw [storage, kept'] at equal
      exact (shared x u' before' equal.symm (needed_of_append other' needed')).imp_left Eq.symm
    · rw [kept, storage'] at equal
      exact (shared w u before equal (needed_of_append other needed)).imp_right (.symm _ _)
    · rw [kept, kept'] at equal
      exact safe.share w x u u' before before' (needed_of_append other needed)
        (needed_of_append other' needed') equal
  case fresh =>
    intro u i found
    rcases joins.holder found with ⟨-, rfl⟩ | ⟨-, before⟩
    · exact joins.below
    · exact Nat.lt_of_lt_of_le (safe.fresh u i before) joins.mono
  case kind =>
    intro u u' i found found' distinct
    rcases joins.holder found with ⟨rfl, rfl⟩ | ⟨other, before⟩ <;>
      rcases joins.holder found' with ⟨rfl, same⟩ | ⟨other', before'⟩
    · exact absurd rfl distinct
    · exact (joins.alike u' other' before').symm
    · exact joins.alike u other (same ▸ before)
    · exact safe.kind u u' i before before' distinct
  case freeNodup => exact safe.freeNodup.sublist (joins.free.map _)
  case freeFlat =>
    intro e member
    obtain ⟨flat, owned⟩ := safe.freeFlat e (joins.free.subset member)
    rw [Function.update_of_ne (safe.storage_unowned unowned owned)]
    exact ⟨flat, owned⟩
  case freeIdle =>
    intro e member w owned needed
    rcases joins.owner safe unowned owned with ⟨-, same, -⟩ | ⟨other, owned, -⟩
    · exact joins.unfree e member same
    · exact safe.freeIdle e (joins.free.subset member) w owned (needed_of_append other needed)
  case listBound =>
    intro i member
    exact Nat.lt_of_lt_of_le (safe.listBound i (joins.list i member).1) joins.mono
  case listKind =>
    intro i member u found
    obtain ⟨before, differs⟩ := joins.list i member
    rcases joins.holder found with ⟨-, same⟩ | ⟨-, found⟩
    · exact absurd same differs
    · exact safe.listKind i before u found
  case listIdle =>
    intro i member w u owned found needed
    obtain ⟨before, differs⟩ := joins.list i member
    rcases joins.owner safe unowned owned with ⟨-, -, storage⟩ | ⟨other, owned, kept⟩
    · exact differs (Option.some.inj (found.symm.trans storage))
    · rw [kept] at found
      exact safe.listIdle i before w u owned found (needed_of_append other needed)
  case blocks => exact joins.blocks
  case heldApart =>
    rw [List.pairwise_append]
    refine ⟨?_, List.pairwise_singleton _ _, fun w member x last u u' owned owned' => ?_⟩
    · refine safe.heldApart.imp_of_mem fun {w x} memberW memberX differ u u' owned owned' => ?_
      rcases joins.owner safe unowned owned with ⟨rfl, -, -⟩ | ⟨-, owned, kept⟩
      · exact absurd memberW new
      · rcases joins.owner safe unowned owned' with ⟨rfl, -, -⟩ | ⟨-, owned', kept'⟩
        · exact absurd memberX new
        · rw [kept, kept']
          exact differ u u' owned owned'
    · cases List.mem_singleton.1 last
      cases (Function.update_self v (some t) own).symm.trans owned'
      rcases joins.owner safe unowned owned with ⟨rfl, -, -⟩ | ⟨-, owned, kept⟩
      · exact absurd member new
      · rw [kept, joins.storage]
        exact alone w member u owned
  case apart =>
    intro w x u u' owned owned' distinct equal
    rcases joins.owner safe unowned owned with ⟨rfl, rfl, storage⟩ | ⟨-, before, kept⟩ <;>
      rcases joins.owner safe unowned owned' with ⟨rfl, rfl, storage'⟩ | ⟨-, before', kept'⟩
    · exact absurd rfl distinct
    · rw [storage, kept'] at equal
      exact apart x u' before' equal.symm
    · rw [kept, storage'] at equal
      exact (apart w u before equal).imp (.symm _ _) fun disjoint k both => disjoint k both.symm
    · rw [kept, kept'] at equal
      exact safe.apart w x u u' before before' distinct equal

end

section

variable {graph : Graph Node} {own : Value Node → Option (Value Node)} {past past' : List Node}
  {held held' future future' : List (Value Node)} {a a' : TokenAllocator Node} {v t : Value Node}

structure Recounted (a a' : TokenAllocator Node) : Prop where
  storage : ∀ u, (a'.tokens u).storageId = (a.tokens u).storageId
  ids : a'.storageIds = a.storageIds
  free : a'.free = a.free
  list : a'.freeList = a.freeList
  blocks : a'.blocks = a.blocks

theorem recounted_addRef (a : TokenAllocator Node) (t : Value Node) (count : Int) :
    Recounted a (a.addRef t count) where
  storage u := by
    by_cases same : u = t
    · simp [TokenAllocator.addRef, TokenAllocator.set, same]
    · simp [TokenAllocator.addRef, TokenAllocator.set, same]
  ids := rfl
  free := rfl
  list := rfl
  blocks := rfl

theorem refCounter_addRef (a : TokenAllocator Node) (t : Value Node) (count : Int) :
    ((a.addRef t count).tokens t).refCounter = (a.tokens t).refCounter + count := by
  simp [TokenAllocator.addRef, TokenAllocator.set]

theorem tokens_addRef_ne (a : TokenAllocator Node) {t u : Value Node} (other : u ≠ t) (count : Int) :
    (a.addRef t count).tokens u = a.tokens u := by
  simp [TokenAllocator.addRef, TokenAllocator.set, other]

theorem Safe.recount (safe : Safe graph own past held future a) (same : Recounted a a')
    (counted : ∀ u id, (a.tokens u).storageId = some id →
      ((future'.countP fun v => own v = some u) + pins graph u : Nat) ≤ (a'.tokens u).refCounter)
    (prototype : ∀ v, own v = none → (a'.tokens v).refCounter = (a.tokens v).refCounter)
    (less : ∀ v, v ∈ future' → v ∈ future) (fewer : held'.Sublist held)
    (started : ∀ v t, own v = some t → (graph.view v.1).isPinned = true ∨ v.1 ∈ past' ∨ v ∈ held') :
    Safe graph own past' held' future' a' := by
  have needed {v : Value Node} (now : Needed graph held' future' v) : Needed graph held future v := by
    rcases now with later | holding | pinned
    · exact Or.inl (less v later)
    · exact Or.inr (Or.inl (fewer.subset holding))
    · exact Or.inr (Or.inr pinned)
  obtain ⟨storage, ids, free, list, blocks⟩ := same
  refine ⟨?_, ?_, ?_, ?_, safe.pinned, started, ?_, ?_, ?_, ?_, ?_, ?_, ?_, ?_, ?_, ?_, ?_, ?_⟩
  · intro u id found
    exact counted u id (storage u ▸ found)
  · intro v unowned
    rw [storage, prototype v unowned]
    exact safe.prototype v unowned
  · intro u id found
    exact safe.self u id (storage u ▸ found)
  · intro v u owned
    rw [storage]
    exact safe.allocated v u owned
  · intro v w u u' owned owned' now now' equal
    rw [storage, storage] at equal
    exact safe.share v w u u' owned owned' (needed now) (needed now') equal
  · intro u id found
    rw [storage] at found
    rw [ids]
    exact safe.fresh u id found
  · intro u u' id found found' distinct
    rw [storage] at found found'
    exact safe.kind u u' id found found' distinct
  · rw [free]
    exact safe.freeNodup
  · rw [free]
    exact safe.freeFlat
  · rw [free]
    exact fun e member v owned now => safe.freeIdle e member v owned (needed now)
  · rw [list, ids]
    exact safe.listBound
  · rw [list]
    intro id member u found
    rw [storage] at found
    exact safe.listKind id member u found
  · rw [list]
    intro id member v u owned found now
    rw [storage] at found
    exact safe.listIdle id member v u owned found (needed now)
  · rw [blocks]
    intro id block found
    rw [storage]
    exact safe.blocks id block found
  · refine (safe.heldApart.sublist fewer).imp fun {v w} differ u u' owned owned' => ?_
    rw [storage, storage]
    exact differ u u' owned owned'
  · intro v w u u' owned owned' distinct equal
    rw [storage, storage] at equal
    exact safe.apart v w u u' owned owned' distinct equal

omit [DecidableEq Node] in
theorem insertFree_perm (size : Nat) (t : Value Node) (free : List (Nat × Value Node)) :
    (TokenAllocator.insertFree size t free).Perm ((size, t) :: free) := by
  refine List.perm_middle.trans ?_
  rw [List.takeWhile_append_dropWhile]

theorem Safe.release (safe : Safe graph own past held future a) (fine : Event → Prop)
    (unfree : ∀ e ∈ a.free, e.2 ≠ t)
    (idle : (a.tokens t).refCounter = 0 → ∀ w u, own w = some u →
      (a.tokens u).storageId = (a.tokens t).storageId → ¬ Needed graph held future w) :
    Ensures fine (a.checkForRelease graph t) fun a' =>
      Safe graph own past held future a' ∧ a'.tokens = a.tokens := by
  unfold TokenAllocator.checkForRelease
  dsimp only
  split
  · exact ensures_fail
  next id found =>
    split
    · exact ensures_fail
    · split
      · exact ensures_pure ⟨safe, rfl⟩
      next zero =>
        have idle := idle (not_not.1 zero)
        split
        next texture =>
          refine ensures_pure ⟨{ safe with listBound := ?_, listKind := ?_, listIdle := ?_ }, rfl⟩
          · intro i member
            rcases List.mem_insert_iff.1 member with rfl | member
            · exact safe.fresh t i found
            · exact safe.listBound i member
          · intro i member u found'
            rcases List.mem_insert_iff.1 member with rfl | member
            · by_cases same : u = t
              · rwa [same]
              · exact (safe.kind u t i found' found same).1
            · exact safe.listKind i member u found'
          · intro i member w u owned found'
            rcases List.mem_insert_iff.1 member with rfl | member
            · exact idle w u owned (found'.trans found.symm)
            · exact safe.listIdle i member w u owned found'
        next flat =>
          have perm := insertFree_perm (a.tokens t).maxBytes t a.free
          refine ensures_pure ⟨{ safe with freeNodup := ?_, freeFlat := ?_, freeIdle := ?_ }, rfl⟩
          · rw [(perm.map Prod.snd).nodup_iff, List.map_cons, List.nodup_cons]
            refine ⟨fun member => ?_, safe.freeNodup⟩
            obtain ⟨e, inside, same⟩ := List.mem_map.1 member
            exact unfree e inside same
          · intro e member
            rcases List.mem_cons.1 (perm.mem_iff.1 member) with rfl | member
            · exact ⟨by simpa using flat, safe.self t id found⟩
            · exact safe.freeFlat e member
          · intro e member w owned
            rcases List.mem_cons.1 (perm.mem_iff.1 member) with rfl | member
            · exact idle w t owned rfl
            · exact safe.freeIdle e member w owned

theorem Safe.unfree (safe : Safe graph own past held future a) (owned : own v = some t)
    (needed : Needed graph held future v) : ∀ e ∈ a.free, e.2 ≠ t := by
  rintro e member rfl
  exact safe.freeIdle e member v owned needed

theorem Safe.ne_zero (safe : Safe graph own past held future a) (owned : own v = some t)
    (needed : v ∈ future ∨ (graph.view v.1).isPinned = true) : (a.tokens t).refCounter ≠ 0 := by
  obtain ⟨id, found⟩ := safe.allocated v t owned
  have enough := safe.counted t id found
  rcases needed with later | pinned
  · have some : 0 < future.countP fun w => own w = some t :=
      List.countP_pos_iff.2 ⟨v, later, by simpa using owned⟩
    omega
  · cases safe.pinned v t owned pinned
    have one : pins graph v = 1 := if_pos pinned
    omega

theorem Safe.consume (safe : Safe graph own past [] (v :: future) a) (fine : Event → Prop)
    (owned : own v = some t) :
    Ensures fine (StorageAllocator.consume graph a t) (Safe graph own past [] future) := by
  have live : Needed graph [] (v :: future) v := Or.inl List.mem_cons_self
  have recounted := recounted_addRef a t (-1)
  have less : Safe graph own past [] future (a.addRef t (-1)) := by
    refine safe.recount recounted (fun u id found => ?_) (fun w unowned => ?_)
      (fun w => List.mem_cons_of_mem _) (List.Sublist.refl _) safe.started
    · have enough := safe.counted u id found
      by_cases same : u = t
      · subst same
        rw [refCounter_addRef]
        rw [List.countP_cons_of_pos (by simpa using owned)] at enough
        omega
      · rw [tokens_addRef_ne a same]
        rwa [List.countP_cons_of_neg (by simpa [owned] using Ne.symm same)] at enough
    · have other : w ≠ t := by
        rintro rfl
        obtain ⟨id, found⟩ := safe.allocated v w owned
        cases (safe.self w id found).symm.trans unowned
      rw [tokens_addRef_ne a other]
  refine (less.release fine (safe.unfree owned live) fun zero w u owned' equal now => ?_).mono
    fun a' safe' => safe'.1
  rw [recounted.storage, recounted.storage] at equal
  have before : Needed graph [] (v :: future) w := now.imp_left (List.mem_cons_of_mem _)
  obtain ⟨rfl, -⟩ := safe.share w v u t owned' owned before live equal
  refine less.ne_zero owned' ?_ zero
  simpa [Needed] using now

variable {tokens : List (Value Node)}

theorem Safe.consumeAll (fine : Event → Prop) {values : List (Value Node)}
    (owners : values.map own = tokens.map some) (safe : Safe graph own past [] (values ++ future) a) :
    Ensures fine (tokens.foldlM (StorageAllocator.consume graph) a) (Safe graph own past [] future) := by
  induction values generalizing tokens a with
  | nil =>
    cases tokens with
    | nil => exact ensures_pure safe
    | cons => cases owners
  | cons v rest ih =>
    cases tokens with
    | nil => cases owners
    | cons t tokens =>
      simp only [List.map_cons, List.cons.injEq] at owners
      exact ensures_bind (safe.consume fine owners.1) fun a' safe' => ih owners.2 safe'

theorem Safe.letGo (fine : Event → Prop) (owners : held.map own = tokens.map some)
    (made : ∀ v ∈ held, v.1 ∈ past) (safe : Safe graph own past held future a) :
    Ensures fine (tokens.foldlM (TokenAllocator.checkForRelease graph) a) (Safe graph own past [] future) := by
  induction held generalizing tokens a with
  | nil =>
    cases tokens with
    | nil => exact ensures_pure safe
    | cons => cases owners
  | cons v rest ih =>
    cases tokens with
    | nil => cases owners
    | cons t tokens =>
      simp only [List.map_cons, List.cons.injEq] at owners
      have live : Needed graph (v :: rest) future v := Or.inr (Or.inl List.mem_cons_self)
      have less : Safe graph own past rest future a := by
        refine safe.recount ⟨fun _ => rfl, rfl, rfl, rfl, rfl⟩ safe.counted (fun _ _ => rfl)
          (fun _ later => later) (List.sublist_cons_self _ _) fun w u owned => ?_
        rcases safe.started w u owned with pinned | before | holding
        · exact Or.inl pinned
        · exact Or.inr (Or.inl before)
        · exact Or.inr (Or.inl (made w holding))
      refine ensures_bind (less.release fine (safe.unfree owners.1 live)
        fun zero w u owned equal now => ?_) fun a' safe' =>
          ih owners.2 (fun w member => made w (List.mem_cons_of_mem _ member)) safe'.1
      have before : Needed graph (v :: rest) future w :=
        now.imp_right (Or.imp_left (List.mem_cons_of_mem _))
      obtain ⟨rfl, -⟩ := safe.share w v u t owned owners.1 before live equal
      rcases now with later | holding | pinned
      · exact less.ne_zero owned (Or.inl later) zero
      · exact List.rel_of_pairwise_cons safe.heldApart holding u u owners.1 owned rfl
      · exact less.ne_zero owned (Or.inr pinned) zero

end

end Tlm.Relay
