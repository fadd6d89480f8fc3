import Mathlib.Algebra.Group.Int.Defs
import Mathlib.Algebra.Group.Nat.Defs
import Mathlib.Logic.Basic

set_option autoImplicit false

namespace Cpp

inductive Fault where
  | check
  | outOfRange
  | invalidArgument
  | undefined
  deriving DecidableEq, Repr

-- What `catch (std::exception&)` handles.
def Fault.caught : Fault → Bool
  | .undefined => false
  | _ => true

@[simp] theorem bind_ok {ε α β : Type} {x : Except ε α} {f : α → Except ε β} {b : β} :
    (x >>= f) = .ok b ↔ ∃ a, x = .ok a ∧ f a = .ok b := by
  cases x <;> simp [bind, Except.bind]

theorem ok_bind {ε α β : Type} (a : α) (f : α → Except ε β) : (.ok a >>= f) = f a := rfl

theorem error_bind {ε α β : Type} (e : ε) (f : α → Except ε β) : (.error e >>= f) = .error e := rfl

@[simp] theorem pure_ok {ε α : Type} {a b : α} : (pure a : Except ε α) = .ok b ↔ a = b := by
  simp [pure, Except.pure]

@[simp] theorem map_ok {ε α β : Type} {x : Except ε α} {f : α → β} {b : β} :
    (f <$> x) = .ok b ↔ ∃ a, x = .ok a ∧ f a = b := by
  cases x <;> simp [Functor.map, Except.map]

@[simp] theorem throw_ok {ε α : Type} {e : ε} {a : α} : (throw e : Except ε α) ≠ .ok a := by
  simp

section

variable {ε σ α β : Type} {s : σ} {x : StateT σ (Except ε) α}

@[simp] theorem run_bind_ok {f : α → StateT σ (Except ε) β} {r : β × σ} :
    (x >>= f) s = .ok r ↔ ∃ a s', x s = .ok (a, s') ∧ f a s' = .ok r := by
  change (x s >>= fun p => f p.1 p.2) = .ok r ↔ _
  simp

@[simp] theorem run_map_ok {f : α → β} {r : β × σ} :
    (f <$> x) s = .ok r ↔ ∃ a s', x s = .ok (a, s') ∧ (f a, s') = r := by
  change ((fun p => (f p.1, p.2)) <$> x s) = .ok r ↔ _
  simp

variable {r : α × σ}

@[simp] theorem run_pure_ok {a : α} : (pure a : StateT σ (Except ε) α) s = .ok r ↔ (a, s) = r := by
  change (pure (a, s) : Except ε (α × σ)) = .ok r ↔ _
  simp

@[simp] theorem run_lift_ok {x : Except ε α} :
    (liftM x : StateT σ (Except ε) α) s = .ok r ↔ ∃ a, x = .ok a ∧ (a, s) = r := by
  change (x >>= fun a => pure (a, s)) = .ok r ↔ _
  simp

@[simp] theorem run_throw_ok {e : ε} : (throw e : StateT σ (Except ε) α) s ≠ .ok r := by
  change (Except.error e : Except ε (α × σ)) ≠ .ok r
  simp

end

def ensure (fault : Fault) (condition : Bool) : Except Fault Unit :=
  if condition then .ok () else .error fault

variable {fault : Fault} {condition : Bool} {u : Unit}

@[simp] theorem ensure_ok : ensure fault condition = .ok u ↔ condition = true := by
  cases condition <;> simp [ensure]

def found {α : Type} (fault : Fault) : Option α → Except Fault α
  | some a => .ok a
  | none => .error fault

@[simp] theorem found_ok {α : Type} {value : Option α} {a : α} :
    found fault value = .ok a ↔ value = some a := by
  cases value <;> simp [found]

def narrow (fault : Fault) (z : Int) : Except Fault Int32 :=
  if -2 ^ 31 ≤ z ∧ z < 2 ^ 31 then .ok (Int32.ofInt z) else .error fault

@[simp] theorem narrow_ok {z : Int} {v : Int32} : narrow fault z = .ok v ↔ v.toInt = z := by
  unfold narrow
  split
  next fits =>
    have back : (Int32.ofInt z).toInt = z := Int32.toInt_ofInt_of_le fits.1 fits.2
    constructor
    · intro same
      cases same
      exact back
    · intro same
      rw [Except.ok.injEq, ← Int32.toInt_inj, back, same]
  next unfit =>
    simp only [reduceCtorEq, false_iff]
    rintro rfl
    exact unfit ⟨v.le_toInt, v.toInt_lt⟩

def position (fault : Fault) (i : Int32) : Except Fault Nat :=
  if 0 ≤ i.toInt then .ok i.toInt.toNat else .error fault

@[simp] theorem position_ok {i : Int32} {n : Nat} : position fault i = .ok n ↔ i.toInt = n := by
  unfold position
  split
  · simp only [Except.ok.injEq]
    omega
  · simp only [reduceCtorEq, false_iff]
    omega

-- How a loop body stops early: by `break`, by a fault inside `try`, or by one outside.
inductive Stop where
  | leave
  | fault (f : Fault)
  | abort (f : Fault)
  deriving DecidableEq, Repr

def raise {α : Type} (x : Except Fault α) : Except Stop α :=
  x.mapError .fault

@[simp] theorem raise_value {α : Type} (a : α) : raise (.ok a) = .ok a := rfl

@[simp] theorem raise_error {α : Type} (f : Fault) :
    raise (.error f : Except Fault α) = .error (.fault f) := rfl

@[simp] theorem raise_ok {α : Type} {x : Except Fault α} {a : α} : raise x = .ok a ↔ x = .ok a := by
  cases x <;> simp

def outside {α : Type} (x : Except Fault α) : Except Stop α :=
  x.mapError .abort

@[simp] theorem outside_value {α : Type} (a : α) : outside (.ok a) = .ok a := rfl

@[simp] theorem outside_error {α : Type} (f : Fault) :
    outside (.error f : Except Fault α) = .error (.abort f) := rfl

@[simp] theorem outside_ok {α : Type} {x : Except Fault α} {a : α} : outside x = .ok a ↔ x = .ok a := by
  cases x <;> simp

def leaveUnless (condition : Bool) : Except Stop Unit :=
  if condition then .ok () else .error .leave

@[simp] theorem leaveUnless_ok : leaveUnless condition = .ok u ↔ condition = true := by
  cases condition <;> simp [leaveUnless]

-- `try { body } catch (std::exception&) { break; }`; `none` is a loop that was left.
def guarded {α : Type} (body : Except Stop α) : Except Fault (Option α) :=
  match body with
  | .ok a => .ok (some a)
  | .error .leave => .ok none
  | .error (.fault f) => if f.caught then .ok none else .error f
  | .error (.abort f) => .error f

def Stop.caught : Stop → Bool
  | .leave => true
  | .fault f => f.caught
  | .abort _ => false

theorem guarded_of_caught {α : Type} {stop : Stop} (caught : stop.caught = true) :
    guarded (.error stop : Except Stop α) = .ok none := by
  match stop, caught with
  | .leave, _ => rfl
  | .fault _, caught => exact if_pos caught

@[simp] theorem guarded_ok_some {α : Type} {body : Except Stop α} {a : α} :
    guarded body = .ok (some a) ↔ body = .ok a := by
  match body with
  | .ok b => simp [guarded]
  | .error .leave => simp [guarded]
  | .error (.fault f) => cases f <;> simp [guarded, Fault.caught]
  | .error (.abort f) => simp [guarded]

variable {Byte α β : Type}

abbrev Reader (Byte : Type) := StateT (List Byte) (Except Fault)

def Reads (reader : Reader Byte α) (bytes : List Byte) (a : α) : Prop :=
  ∀ rest, reader (bytes ++ rest) = .ok (a, rest)

theorem reads_pure (a : α) : Reads (pure a : Reader Byte α) [] a :=
  fun _ => rfl

variable {x : Reader Byte α} {f : α → Reader Byte β} {a : α} {b : β}

theorem reads_bind {first second : List Byte} (left : Reads x first a) (right : Reads (f a) second b) : Reads (x >>= f) (first ++ second) b := by
  intro rest
  change (x (first ++ second ++ rest) >>= fun p => f p.1 p.2) = _
  rw [List.append_assoc, left]
  exact right rest

variable {bytes : List Byte}

theorem reads_map (f : α → β) (run : Reads x bytes a) : Reads (f <$> x) bytes (f a) := by
  intro rest
  simp [run rest]

theorem reads_lift {x : Except Fault α} (ok : x = .ok a) (right : Reads (f a) bytes b) : Reads ((liftM x : Reader Byte α) >>= f) bytes b := by
  subst ok
  exact right

def readMany (reader : Reader Byte α) : Nat → Reader Byte (List α)
  | 0 => return []
  | n + 1 => do
    let a ← reader
    (a :: ·) <$> readMany reader n

theorem reads_many {reader : Reader Byte α} {bytes : β → List Byte} {value : β → α} {items : List β}
    (each : ∀ item ∈ items, Reads reader (bytes item) (value item)) :
    Reads (readMany reader items.length) (items.flatMap bytes) (items.map value) := by
  induction items with
  | nil => exact reads_pure _
  | cons item items ih =>
    obtain ⟨first, later⟩ := List.forall_mem_cons.1 each
    exact reads_bind first (reads_map _ (ih later))

structure Codec (Byte α : Type) where
  write : α → List Byte
  read : Reader Byte α
  inverse : ∀ a, Reads read (write a) a

def Codec.single (put : α → Byte) (get : Byte → Option α) (back : ∀ a, get (put a) = some a) :
    Codec Byte α where
  write a := [put a]
  read
    | [] => .error .check
    | byte :: rest => (·, rest) <$> found .check (get byte)
  inverse a rest := by simp [back]

end Cpp
