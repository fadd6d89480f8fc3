import Tlm.Shared.Decimal

set_option autoImplicit false

namespace Cpp

abbrev Cursor := StateT (List String) (Except Stop)

def nextToken : Cursor String
  | [] => .error (.fault .outOfRange)
  | token :: rest => .ok (token, rest)

def nextInt : Cursor Int32 := do
  raise (stoi (← nextToken))

def nextUnsigned : Cursor Nat := do
  raise (stoul (← nextToken))

def nextInts : Nat → Cursor (List Int32)
  | 0 => return []
  | n + 1 => return (← nextInt) :: (← nextInts n)

-- `if (!condition) break;`
def require (condition : Bool) : Cursor Unit :=
  leaveUnless condition

-- `if (tokens.at(token_idx++) != word) break;`, and the same for parsed tokens.
def expectToken (word : String) : Cursor Unit := do
  require ((← nextToken) = word)

def expectInt (value : Int32) : Cursor Unit := do
  require ((← nextInt) = value)

def expectUnsigned (value : Nat) : Cursor Unit := do
  require ((← nextUnsigned) = value)

variable {tokens rest : List String}

@[simp] theorem nextToken_ok {token : String} :
    nextToken tokens = .ok (token, rest) ↔ tokens = token :: rest := by
  cases tokens <;> simp [nextToken]

@[simp] theorem nextInt_ok {value : Int32} :
    nextInt tokens = .ok (value, rest) ↔ ∃ token, tokens = token :: rest ∧ stoi token = .ok value := by
  constructor
  · intro run
    simp only [nextInt, run_bind_ok, nextToken_ok, run_lift_ok, raise_ok] at run
    obtain ⟨token, _, shape, _, parsed, rfl, rfl⟩ := run
    exact ⟨token, shape, parsed⟩
  · rintro ⟨token, shape, parsed⟩
    simp [nextInt, shape, parsed, and_assoc]

@[simp] theorem nextUnsigned_ok {value : Nat} :
    nextUnsigned tokens = .ok (value, rest) ↔ ∃ token, tokens = token :: rest ∧ stoul token = .ok value := by
  constructor
  · intro run
    simp only [nextUnsigned, run_bind_ok, nextToken_ok, run_lift_ok, raise_ok] at run
    obtain ⟨token, _, shape, _, parsed, rfl, rfl⟩ := run
    exact ⟨token, shape, parsed⟩
  · rintro ⟨token, shape, parsed⟩
    simp [nextUnsigned, shape, parsed, and_assoc]

variable {u : Unit}

@[simp] theorem require_ok {condition : Bool} :
    require condition tokens = .ok (u, rest) ↔ condition = true ∧ tokens = rest := by
  simp [require]

@[simp] theorem expectToken_ok {word : String} :
    expectToken word tokens = .ok (u, rest) ↔ tokens = word :: rest := by
  constructor
  · intro run
    simp only [expectToken, run_bind_ok, nextToken_ok, require_ok, decide_eq_true_eq] at run
    obtain ⟨_, _, shape, rfl, rfl⟩ := run
    exact shape
  · rintro rfl
    simp [expectToken]

@[simp] theorem expectInt_ok {value : Int32} :
    expectInt value tokens = .ok (u, rest) ↔ ∃ token, tokens = token :: rest ∧ stoi token = .ok value := by
  constructor
  · intro run
    simp only [expectInt, run_bind_ok, nextInt_ok, require_ok, decide_eq_true_eq] at run
    obtain ⟨_, _, ⟨token, shape, parsed⟩, rfl, rfl⟩ := run
    exact ⟨token, shape, parsed⟩
  · rintro ⟨token, rfl, parsed⟩
    simp [expectInt, parsed]

@[simp] theorem expectUnsigned_ok {value : Nat} :
    expectUnsigned value tokens = .ok (u, rest) ↔
      ∃ token, tokens = token :: rest ∧ stoul token = .ok value := by
  constructor
  · intro run
    simp only [expectUnsigned, run_bind_ok, nextUnsigned_ok, require_ok, decide_eq_true_eq] at run
    obtain ⟨_, _, ⟨token, shape, parsed⟩, rfl, rfl⟩ := run
    exact ⟨token, shape, parsed⟩
  · rintro ⟨token, rfl, parsed⟩
    simp [expectUnsigned, parsed]

theorem nextInts_ok {n : Nat} {values : List Int32} :
    nextInts n tokens = .ok (values, rest) ↔
      ∃ read, tokens = read ++ rest ∧ read.length = n ∧ read.map stoi = values.map .ok := by
  induction n generalizing tokens values with
  | zero =>
    simp only [nextInts, List.length_eq_zero_iff]
    constructor
    · rintro ⟨rfl, rfl⟩
      exact ⟨[], by simp⟩
    · rintro ⟨read, rfl, rfl, same⟩
      simpa using same
  | succ n ih =>
    constructor
    · intro run
      simp only [nextInts, run_bind_ok, nextInt_ok] at run
      obtain ⟨value, _, ⟨token, rfl, parsed⟩, values, _, later, rfl, rfl⟩ := run
      obtain ⟨read, rfl, size, same⟩ := ih.mp later
      exact ⟨token :: read, by simp, by simp [size], by simp [parsed, same]⟩
    · rintro ⟨read, rfl, size, same⟩
      cases read with
      | nil => cases size
      | cons token read =>
        cases values with
        | nil => cases same
        | cons value values =>
          simp only [List.map_cons, List.cons.injEq] at same
          have later := ih.mpr ⟨read, rfl, by simpa using size, same.2⟩
          simp [nextInts, same.1, later, and_assoc]

end Cpp
