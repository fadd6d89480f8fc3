import Tlm.Relay.StorageSafe

set_option autoImplicit false

namespace Tlm.Relay

open Cpp Traced

variable {Node : Type} [DecidableEq Node] {graph : Graph Node}
  {own : Value Node → Option (Value Node)} {past : List Node} {held future : List (Value Node)}
  {a a' : TokenAllocator Node} {v t : Value Node} {id : Nat} {fine : Event → Prop}

namespace Safe

variable (safe : Safe graph own past held future a)

include safe

theorem countP_unowned (unowned : own v = none) : (future.countP fun w => own w = some v) = 0 := by
  rw [List.countP_eq_zero]
  intro w _ owned
  exact safe.storage_unowned unowned (by simpa using owned) rfl

theorem blocks_other (unowned : own v = none) {i : Nat} {block : MemBlock Node}
    (found : a.blocks.lookup i = some block) : block.token ≠ v :=
  safe.storage_unowned unowned (safe.self _ i (safe.blocks i block found).1)

theorem free_other (unowned : own v = none) {e : Nat × Value Node} (member : e ∈ a.free) : e.2 ≠ v :=
  safe.storage_unowned unowned (safe.freeFlat e member).2

end Safe

theorem set_tokens_self (a : TokenAllocator Node) (v : Value Node) (token : StorageToken) :
    (a.set v token).tokens v = token := by
  simp [TokenAllocator.set]

theorem set_tokens_ne (a : TokenAllocator Node) {v u : Value Node} (other : u ≠ v)
    (token : StorageToken) : (a.set v token).tokens u = a.tokens u := by
  simp [TokenAllocator.set, other]

theorem alloc_ensures (safe : Safe graph own past held future a) (unowned : own v = none) :
    Ensures fine (a.alloc graph v) fun r => r.1 = v ∧ Joins graph v v a.storageIds a r.2 ∧
      (r.2.tokens v).refCounter = (a.tokens v).refCounter := by
  have alike : ∀ u, u ≠ v → (a.tokens u).storageId = some a.storageIds →
      is2DStorage graph u = true ∧ is2DStorage graph v = true :=
    fun u _ found => absurd (safe.fresh u _ found) (Nat.lt_irrefl _)
  have list : ∀ i ∈ a.freeList, i ∈ a.freeList ∧ i ≠ a.storageIds :=
    fun i member => ⟨member, Nat.ne_of_lt (safe.listBound i member)⟩
  unfold TokenAllocator.alloc
  split
  next texture =>
    refine ensures_bind (x := TokenAllocator.alloc2D graph _ v _) ?_ fun taken made =>
      ensures_pure ⟨rfl, made⟩
    refine ensures_bind (fun _ _ _ => trivial) fun shape _ => ensures_pure ⟨?_, by simp [set_tokens_self]⟩
    refine ⟨fun u other => set_tokens_ne _ other _, Or.inl rfl, by simp [set_tokens_self],
      Nat.lt_succ_self _, Nat.le_succ _, alike, List.Sublist.refl _,
      fun e member => safe.free_other unowned member, list, fun i block found => ?_⟩
    by_cases same : i = a.storageIds
    · subst same
      rw [AList.lookup_insert] at found
      cases found
      exact ⟨by simp [set_tokens_self], texture⟩
    · rw [AList.lookup_insert_ne same] at found
      have other := safe.blocks_other unowned found
      simp only [set_tokens_ne _ other]
      exact safe.blocks i block found
  next flat =>
    refine ensures_bind (x := TokenAllocator.alloc1D graph _ v _) ?_ fun taken made =>
      ensures_pure ⟨rfl, made⟩
    refine ensures_bind (fun _ _ _ => trivial) fun size _ => ensures_pure ⟨?_, by simp [set_tokens_self]⟩
    refine ⟨fun u other => set_tokens_ne _ other _, Or.inl rfl, by simp [set_tokens_self],
      Nat.lt_succ_self _, Nat.le_succ _, alike, List.Sublist.refl _,
      fun e member => safe.free_other unowned member, list, fun i block found => ?_⟩
    rw [set_tokens_ne _ (safe.blocks_other unowned found)]
    exact safe.blocks i block found

def Reuses (graph : Graph Node) (own : Value Node → Option (Value Node))
    (held future : List (Value Node)) (v : Value Node) (a : TokenAllocator Node) (t : Value Node)
    (a' : TokenAllocator Node) : Prop :=
  ∃ id, Joins graph v t id a a' ∧
    ((future.countP fun w => own w = some t) + future.count v + pins graph t : Nat) ≤
      (a'.tokens t).refCounter ∧
    ∀ w u, own w = some u → (a.tokens u).storageId = some id → ¬ Needed graph held future w

omit [DecidableEq Node] in
theorem mem_candidates {size : Nat} :
    Ensures fine (a.candidates size) fun found => ∀ e ∈ found, e ∈ a.free := by
  unfold TokenAllocator.candidates
  dsimp only
  split
  · exact ensures_fail
  · refine ensures_pure fun e member => ?_
    rcases List.mem_append.1 member with larger | smaller
    · exact List.mem_of_mem_take (List.mem_of_mem_drop larger)
    · exact List.mem_of_mem_take (List.mem_of_mem_drop (List.mem_reverse.1 smaller))

theorem ne_of_mem_erase {free : List (Nat × Value Node)} (nodup : (free.map Prod.snd).Nodup)
    {e entry : Nat × Value Node} (inside : entry ∈ free) (left : e ∈ free.erase entry) : e.2 ≠ entry.2 := by
  intro same
  obtain ⟨other, member⟩ := (List.Nodup.of_map _ nodup).mem_erase_iff.1 left
  exact other (List.inj_on_of_nodup_map nodup member inside same)

omit [DecidableEq Node] in
theorem consider_ensures (shape : Texture2DShape) (search : TokenAllocator.Search) (freeId : Nat) :
    Ensures fine (a.consider graph v shape search freeId) fun next =>
      ∀ best, next.best = some best → search.best = some best ∨ best.1 = freeId := by
  unfold TokenAllocator.consider
  split
  · exact ensures_fail
  · split
    · exact ensures_pure fun best found => Or.inl found
    · split
      · exact ensures_pure fun best found => Or.inl found
      · refine ensures_bind (fun _ _ _ => trivial) fun far _ => ensures_pure fun best found => ?_
        split at found
        · cases found
          exact Or.inr rfl
        · exact Or.inl found

omit [DecidableEq Node] in
theorem search_ensures (shape : Texture2DShape) (ids : List Nat) (start : TokenAllocator.Search)
    (empty : start.best = none) :
    Ensures fine (ids.foldlM (a.consider graph v shape) start) fun search =>
      ∀ best, search.best = some best → best.1 ∈ ids := by
  refine ensures_foldlM (K := fun past (search : TokenAllocator.Search) =>
    ∀ best, search.best = some best → best.1 ∈ past) ?_ ids [] start (by simp [empty])
  intro past freeId search inside
  refine (consider_ensures shape search freeId).mono fun next newer best found => ?_
  rcases newer best found with older | here
  · exact List.mem_append_left _ (inside best older)
  · simp [here]

section

variable (safe : Safe graph own past held future a) (unowned : own v = none)
  (few : (future.count v : Int) ≤ (a.tokens v).refCounter)

include safe few

theorem request1D_ensures : Ensures fine (a.request1D graph v) fun r =>
    r = (none, a) ∨ ∃ t, r.1 = some t ∧ Reuses graph own held future v a t r.2 := by
  refine ensures_bind (fun _ _ _ => trivial) fun size _ => ?_
  refine ensures_bind mem_candidates fun found inside => ?_
  split
  · exact ensures_pure (Or.inl rfl)
  next entry chosen =>
    have member := inside entry (List.mem_of_find?_eq_some chosen)
    obtain ⟨flat, owned⟩ := safe.freeFlat entry member
    obtain ⟨id, storage⟩ := safe.allocated _ _ owned
    dsimp only
    split
    · exact ensures_fail
    next zero =>
      refine ensures_bind (fun _ _ _ => trivial) fun _ _ => ensures_pure (Or.inr ⟨_, rfl, id, ?_, ?_, ?_⟩)
      · constructor
        case same => exact fun u other => set_tokens_ne _ other _
        case target => exact Or.inr storage
        case storage => simpa [set_tokens_self] using storage
        case below => exact safe.fresh _ id storage
        case mono => exact Nat.le_refl _
        case alike => exact fun u other found => safe.kind u _ id found storage other
        case free => exact List.erase_sublist
        case unfree => exact fun e left => ne_of_mem_erase safe.freeNodup member left
        case list =>
          refine fun i inList => ⟨inList, ?_⟩
          rintro rfl
          have texture := safe.listKind i inList _ storage
          rw [flat] at texture
          cases texture
        case blocks =>
          intro i block found
          obtain ⟨kept, texture⟩ := safe.blocks i block found
          have other : block.token ≠ entry.2 := by
            intro same
            rw [same, flat] at texture
            cases texture
          simp only [set_tokens_ne _ other]
          exact ⟨kept, texture⟩
      · have unread := safe.counted _ id storage
        simp only [set_tokens_self]
        omega
      · intro w u owned' equal
        by_cases same : u = entry.2
        · subst same
          exact safe.freeIdle entry member w owned'
        · have texture := (safe.kind u _ id equal storage same).2
          rw [flat] at texture
          cases texture

include unowned

variable {order : List Nat → List Nat}

theorem request2D_ensures (subset : ∀ ids, ∀ i ∈ order ids, i ∈ ids)
    (texture : is2DStorage graph v = true) (unpinned : pins graph v = 0) :
    Ensures fine (a.request2D graph order v) fun r =>
      r = (none, a) ∨ ∃ t, r.1 = some t ∧ Reuses graph own held future v a t r.2 := by
  refine ensures_bind (fun _ _ _ => trivial) fun shape _ => ?_
  refine ensures_bind (search_ensures shape _ _ rfl) fun search inside => ?_
  -- No tensor in a free texture is needed, whichever token has the storage.
  have idle {best : Nat × Int × Int} (chosen : search.best = some best) :
      best.1 ∈ a.freeList ∧ ∀ w u, own w = some u → (a.tokens u).storageId = some best.1 →
        ¬ Needed graph held future w := by
    have member := subset _ _ (inside _ chosen)
    exact ⟨member, safe.listIdle _ member⟩
  split
  · split
    · exact ensures_fail
    next id x y chosen =>
      obtain ⟨member, unneeded⟩ := idle chosen
      split
      · exact ensures_fail
      next block found =>
        obtain ⟨storage, blockTexture⟩ := safe.blocks id block found
        have recounted := recounted_addRef a block.token (a.tokens v).refCounter
        refine ensures_pure (Or.inr ⟨_, rfl, id, ?_, ?_, unneeded⟩)
        · constructor
          case same => exact fun u other => tokens_addRef_ne a other _
          case target => exact Or.inr storage
          case storage => exact (recounted.storage _).trans storage
          case below => exact safe.fresh _ id storage
          case mono => exact Nat.le_refl _
          case alike => exact fun u other equal => safe.kind u _ id equal storage other
          case free => exact List.Sublist.refl _
          case unfree =>
            rintro e inside same
            have flat := (safe.freeFlat e inside).1
            rw [same, blockTexture] at flat
            cases flat
          case list => exact fun i inList => by simpa using List.mem_filter.1 inList
          case blocks =>
            intro i other kept
            have before := safe.blocks i other kept
            exact ⟨(recounted.storage _).trans before.1, before.2⟩
        · have enough := safe.counted _ id storage
          have added := refCounter_addRef a block.token (a.tokens v).refCounter
          dsimp only
          omega
  · split
    · split
      · exact ensures_fail
      next id x y chosen =>
        obtain ⟨member, unneeded⟩ := idle chosen
        refine ensures_pure (Or.inr ⟨_, rfl, id, ?_, ?_, unneeded⟩)
        · constructor
          case same => exact fun u other => set_tokens_ne _ other _
          case target => exact Or.inl rfl
          case storage => simp [set_tokens_self]
          case below => exact safe.listBound id member
          case mono => exact Nat.le_refl _
          case alike => exact fun u _ equal => ⟨safe.listKind id member u equal, texture⟩
          case free => exact List.Sublist.refl _
          case unfree => exact fun e inside => safe.free_other unowned inside
          case list => exact fun i inList => by simpa using List.mem_filter.1 inList
          case blocks =>
            intro i block found
            by_cases same : i = id
            · subst same
              rw [AList.lookup_insert] at found
              cases found
              exact ⟨by simp [set_tokens_self], texture⟩
            · rw [AList.lookup_insert_ne same] at found
              simp only [set_tokens_ne _ (safe.blocks_other unowned found)]
              exact safe.blocks i block found
        · rw [safe.countP_unowned unowned, unpinned]
          simp only [set_tokens_self]
          omega
    · exact ensures_pure (Or.inl rfl)

theorem alloc_reuses (unpinned : pins graph v = 0) : Ensures fine (a.alloc graph v) fun r =>
    Reuses graph own held future v a r.1 r.2 := by
  refine (alloc_ensures safe unowned).mono ?_
  rintro ⟨t, a'⟩ ⟨same, joins, counter⟩
  subst same
  refine ⟨a.storageIds, joins, ?_, fun w u _ found => ?_⟩
  · rw [safe.countP_unowned unowned, unpinned, counter]
    omega
  · exact absurd (safe.fresh u _ found) (Nat.lt_irrefl _)

theorem request_ensures (subset : ∀ ids, ∀ i ∈ order ids, i ∈ ids) (unpinned : pins graph v = 0) : Ensures fine (a.request graph order v) fun r =>
      Reuses graph own held future v a r.1 r.2 := by
  have none : Ensures fine (a.alloc graph v) fun r => Reuses graph own held future v a r.1 r.2 :=
    alloc_reuses safe unowned few unpinned
  unfold TokenAllocator.request
  split
  next texture =>
    refine ensures_bind (request2D_ensures safe unowned few subset texture unpinned) ?_
    rintro ⟨found, next⟩ (same | ⟨t, rfl, reuses⟩)
    · cases same
      exact none
    · exact ensures_pure reuses
  · refine ensures_bind (request1D_ensures safe few) ?_
    rintro ⟨found, next⟩ (same | ⟨t, rfl, reuses⟩)
    · cases same
      exact none
    · exact ensures_pure reuses

end

structure Moment (graph : Graph Node) (past : List Node) (n : Node) (future : List (Value Node)) :
    Prop where
  done : past <+: graph.executionOrder
  now : graph.executionOrder[past.length]? = some n
  later : ∀ k c, past.length ≤ k → graph.executionOrder[k]? = some c → ∀ w ∈ graph.argLeaves c,
    w ∈ future
  results : ∀ w ∈ graph.leaves graph.body, w ∈ future
  counted : ∀ w, future.count w ≤ StorageAllocaInit.readers graph w
  call : (graph.view n).isPinned = false

section

variable {n : Node} (moment : Moment graph past n future)

include moment

variable {k : Nat}

theorem Moment.le_of_liveAt (made : v.1 = n) (live : graph.LiveAt graph.executionOrder v k) : past.length ≤ k := by
  rcases live with pinned | ⟨j, before, here, -⟩
  · rw [made, moment.call] at pinned
    cases pinned
  · rw [made] at here
    have same : j = past.length :=
      (List.getElem?_inj (List.getElem?_eq_some_iff.1 here).1 graph.executionOrder_nodup).1
        (here.trans moment.now.symm)
    omega

variable {u : Value Node}

theorem Moment.dead (safe : Safe graph own past held future a) {w : Value Node} (owned : own w = some u)
    (unneeded : ¬ Needed graph held future w) (after : past.length ≤ k) : ¬ graph.LiveAt graph.executionOrder w k := by
  rintro (pinned | ⟨j, before, here, still | result | ⟨m, c, later, reads, member⟩⟩)
  · exact unneeded (Or.inr (Or.inr pinned))
  · rcases safe.started w u owned with pinned | made | holding
    · exact unneeded (Or.inr (Or.inr pinned))
    · obtain ⟨i, bound, same⟩ := List.mem_iff_getElem.1 made
      have early : graph.executionOrder[i]? = some w.1 := by
        rw [← same, ← List.getElem?_eq_getElem bound]
        exact (List.prefix_iff_getElem?.1 moment.done i bound).trans (List.getElem?_eq_getElem bound).symm
      have again : i = j :=
        (List.getElem?_inj (List.getElem?_eq_some_iff.1 early).1 graph.executionOrder_nodup).1
          (early.trans here.symm)
      omega
    · exact unneeded (Or.inr (Or.inl holding))
  · exact unneeded (Or.inl (moment.results w result))
  · exact unneeded (Or.inl (moment.later m c (by omega) reads w member))

theorem Safe.reuse (safe : Safe graph own past held future a) (unowned : own v = none)
    (new : v ∉ held) (made : v.1 = n) (reuses : Reuses graph own held future v a t a') :
    Safe graph (Function.update own v (some t)) past (held ++ [v]) future a' := by
  obtain ⟨id, joins, enough, idle⟩ := reuses
  refine safe.join unowned new joins enough ?_ ?_ ?_ ?_
  · intro pinned
    rw [made, moment.call] at pinned
    cases pinned
  · exact fun w u owned found needed => absurd needed (idle w u owned found)
  · exact fun w member u owned found => idle w u owned found (Or.inr (Or.inl member))
  · refine fun w u owned found => Or.inr fun k live => ?_
    exact moment.dead safe owned (idle w u owned found) (moment.le_of_liveAt made live.1) live.2

theorem Moment.unpinned (made : v.1 = n) : pins graph v = 0 := by
  rw [pins, made, moment.call]
  rfl

theorem Safe.reshape (safe : Safe graph own past [] future a) (unowned : own v = none) (made : v.1 = n)
    (reshapes : graph.Reshapes v u) (owned : own u = some t) (read : u ∈ future) :
    Safe graph (Function.update own v (some t)) past [v] future (a.addRef t (a.tokens v).refCounter) := by
  obtain ⟨id, found⟩ := safe.allocated u t owned
  have needed : Needed graph [] future u := Or.inl read
  have same := recounted_addRef a t (a.tokens v).refCounter
  have aliased : graph.Aliases v u := .rel _ _ reshapes
  have joins : Joins graph v t id a (a.addRef t (a.tokens v).refCounter) := by
    refine ⟨fun w other => tokens_addRef_ne a other _, Or.inr found, (same.storage t).trans found,
      safe.fresh t id found, Nat.le_refl _, fun w other found' => safe.kind w t id found' found other,
      List.Sublist.refl _, safe.unfree owned needed, fun i member => ⟨member, ?_⟩, ?_⟩
    · rintro rfl
      exact safe.listIdle i member u t owned found needed
    · intro i block known
      rw [same.storage]
      exact safe.blocks i block known
  have shared : ∀ w x, own w = some x → (a.tokens x).storageId = some id →
      Needed graph [] future w → x = t ∧ graph.Aliases v w := by
    intro w x owned' found' needed'
    obtain ⟨rfl, related⟩ := safe.share u w t x owned owned' needed needed' (found.trans found'.symm)
    exact ⟨rfl, aliased.trans _ _ _ related⟩
  refine safe.join unowned List.not_mem_nil joins ?_ ?_ shared ?_ ?_
  · have before := safe.counted t id found
    have some := moment.counted v
    rw [refCounter_addRef, (safe.prototype v unowned).2]
    omega
  · intro pinned
    rw [made, moment.call] at pinned
    cases pinned
  · intro w member
    cases member
  · intro w x owned' found'
    by_cases needed' : Needed graph [] future w
    · exact Or.inl (shared w x owned' found' needed').2
    · refine Or.inr fun k live => ?_
      exact moment.dead safe owned' needed' (moment.le_of_liveAt made live.1) live.2

end

def attach (own : Value Node → Option (Value Node)) :
    List (Value Node) → List (Value Node) → Value Node → Option (Value Node)
  | v :: values, t :: tokens => attach (Function.update own v (some t)) values tokens
  | _, _ => own

variable {values tokens : List (Value Node)}

theorem attach_of_not_mem (other : v ∉ values) : attach own values tokens v = own v := by
  induction values generalizing own tokens with
  | nil => rfl
  | cons w rest ih =>
    cases tokens with
    | nil => rfl
    | cons t tokens =>
      rw [List.mem_cons, not_or] at other
      rw [attach, ih other.2, Function.update_of_ne other.1]

theorem attach_of_getElem? (nodup : values.Nodup) (each : tokens.length = values.length) {i : Nat}
    (here : values[i]? = some v) : attach own values tokens v = tokens[i]? := by
  induction values generalizing own tokens i with
  | nil => cases here
  | cons w rest ih =>
    cases tokens with
    | nil => cases each
    | cons t tokens =>
      rw [List.nodup_cons] at nodup
      rw [attach]
      cases i with
      | zero =>
        cases here
        rw [attach_of_not_mem nodup.1, Function.update_self]
        rfl
      | succ i => exact ih nodup.2 (Nat.succ.inj each) here

theorem requestAll_ensures {n : Node} (moment : Moment graph past n future) {order : List Nat → List Nat}
    (subset : ∀ ids, ∀ i ∈ order ids, i ∈ ids) (nodup : values.Nodup) (made : ∀ v ∈ values, v.1 = n)
    (unowned : ∀ v ∈ values, own v = none) (new : ∀ v ∈ values, v ∉ held)
    (safe : Safe graph own past held future a) :
    Ensures fine (StorageAllocator.requestAll graph order values a) fun r =>
      r.1.length = values.length ∧ Safe graph (attach own values r.1) past (held ++ values) future r.2 := by
  induction values generalizing own held a with
  | nil => exact ensures_pure ⟨rfl, by simpa [attach] using safe⟩
  | cons v rest ih =>
    rw [List.nodup_cons] at nodup
    have unowned' := unowned v List.mem_cons_self
    have made' := made v List.mem_cons_self
    have few : (future.count v : Int) ≤ (a.tokens v).refCounter := by
      rw [(safe.prototype v unowned').2]
      exact_mod_cast moment.counted v
    refine ensures_bind (request_ensures safe unowned' few subset (moment.unpinned made')) ?_
    rintro ⟨t, a₁⟩ reuses
    have safe₁ := safe.reuse moment unowned' (new v List.mem_cons_self) made' reuses
    have apart {w : Value Node} (member : w ∈ rest) : w ≠ v := by
      rintro rfl
      exact nodup.1 member
    refine ensures_bind (ih nodup.2 (fun w member => made w (List.mem_cons_of_mem _ member))
      (fun w member => ?_) (fun w member => ?_) safe₁) ?_
    · rw [Function.update_of_ne (apart member)]
      exact unowned w (List.mem_cons_of_mem _ member)
    · simpa [apart member] using new w (List.mem_cons_of_mem _ member)
    · rintro ⟨later, a₂⟩ ⟨each, safe₂⟩
      refine ensures_pure ⟨congrArg (· + 1) each, ?_⟩
      simpa [attach] using safe₂

theorem allocAll_ensures (counted : ∀ w, future.count w ≤ StorageAllocaInit.readers graph w)
    (nodup : values.Nodup) (pinned : ∀ v ∈ values, (graph.view v.1).isPinned = true)
    (unowned : ∀ v ∈ values, own v = none) (safe : Safe graph own past [] future a) :
    Ensures fine (StorageAllocator.allocAll graph values a) fun r =>
      r.1.length = values.length ∧ Safe graph (attach own values r.1) past [] future r.2 := by
  induction values generalizing own a with
  | nil => exact ensures_pure ⟨rfl, safe⟩
  | cons v rest ih =>
    rw [List.nodup_cons] at nodup
    have unowned' := unowned v List.mem_cons_self
    refine ensures_bind (alloc_ensures safe unowned') ?_
    rintro ⟨t, a₁⟩ ⟨same, joins, counter⟩
    subst same
    have recounted := recounted_addRef a₁ t 1
    have joins₁ : Joins graph t t a.storageIds a (a₁.addRef t 1) := by
      refine ⟨fun u other => ?_, joins.target, (recounted.storage t).trans joins.storage, joins.below,
        joins.mono, joins.alike, joins.free, joins.unfree, joins.list, fun i block known => ?_⟩
      · rw [tokens_addRef_ne a₁ other, joins.same u other]
      · rw [recounted.storage]
        exact joins.blocks i block known
    have unused : ∀ w u, own w = some u → (a.tokens u).storageId ≠ some a.storageIds :=
      fun w u _ found => Nat.lt_irrefl _ (safe.fresh u _ found)
    have safe₁ : Safe graph (Function.update own t (some t)) past ([] ++ [t]) future
        (a₁.addRef t 1) := by
      refine safe.join unowned' List.not_mem_nil joins₁ ?_ (fun _ => rfl) ?_ ?_ ?_
      · have few := counted t
        have one : pins graph t = 1 := if_pos (pinned t List.mem_cons_self)
        rw [refCounter_addRef, counter, (safe.prototype t unowned').2, one, safe.countP_unowned unowned']
        omega
      · exact fun w u owned found => absurd found (unused w u owned)
      · exact fun w _ u owned => unused w u owned
      · exact fun w u owned found => absurd found (unused w u owned)
    have safe₂ : Safe graph (Function.update own t (some t)) past [] future (a₁.addRef t 1) := by
      refine safe₁.recount ⟨fun _ => rfl, rfl, rfl, rfl, rfl⟩ safe₁.counted (fun _ _ => rfl)
        (fun _ later => later) (List.nil_sublist _) fun w u owned => ?_
      rcases safe₁.started w u owned with kept | before | holding
      · exact Or.inl kept
      · exact Or.inr (Or.inl before)
      · rw [List.mem_singleton.1 holding]
        exact Or.inl (pinned t List.mem_cons_self)
    refine ensures_bind (ih nodup.2 (fun w member => pinned w (List.mem_cons_of_mem _ member))
      (fun w member => ?_) safe₂) ?_
    · have other : w ≠ t := by
        rintro rfl
        exact nodup.1 member
      rw [Function.update_of_ne other]
      exact unowned w (List.mem_cons_of_mem _ member)
    · rintro ⟨later, a₂⟩ ⟨each, safe₃⟩
      exact ensures_pure ⟨congrArg (· + 1) each, safe₃⟩

end Tlm.Relay
