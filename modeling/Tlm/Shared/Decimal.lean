import Tlm.Shared.Fault
import Mathlib.Data.List.TakeWhile

set_option autoImplicit false

namespace Cpp

def isSpace (c : Char) : Bool :=
  c == ' ' || ('\t' ≤ c && c ≤ '\r')

def scanSign : List Char → Bool × List Char
  | '-' :: rest => (true, rest)
  | '+' :: rest => (false, rest)
  | rest => (false, rest)

def scanNumeral (text : List Char) : Option (Bool × Nat) :=
  let (negative, rest) := scanSign (text.dropWhile isSpace)
  match rest.takeWhile Char.isDigit with
  | [] => none
  | digits => some (negative, Nat.ofDigitChars 10 digits 0)

def signed : Bool × Nat → Int
  | (true, magnitude) => -magnitude
  | (false, magnitude) => magnitude

def stoi (text : String) : Except Fault Int32 := do
  narrow .outOfRange (signed (← found .invalidArgument (scanNumeral text.toList)))

-- `atoi`: no numeral reads as zero, and a numeral that does not fit is undefined.
def atoi (text : List Char) : Except Fault Int32 :=
  narrow .undefined (((scanNumeral text).map signed).getD 0)

def stol (text : String) : Except Fault Int64 := do
  let numeral ← found .invalidArgument (scanNumeral text.toList)
  let value := signed numeral
  ensure .outOfRange (decide (-2 ^ 63 ≤ value ∧ value < 2 ^ 63))
  return Int64.ofInt value

-- `strtoul` negates modulo the word size when it meets a minus sign.
def stoul (text : String) : Except Fault Nat := do
  let (negative, magnitude) ← found .invalidArgument (scanNumeral text.toList)
  ensure .outOfRange (decide (magnitude < 2 ^ 64))
  return if negative then (2 ^ 64 - magnitude) % 2 ^ 64 else magnitude

theorem isDigit_bounds {c : Char} (digit : c.isDigit = true) : 48 ≤ c.toNat ∧ c.toNat ≤ 57 := by
  simp only [Char.isDigit, Bool.and_eq_true, decide_eq_true_eq] at digit
  exact digit

theorem isDigit_not_space {c : Char} (digit : c.isDigit = true) : isSpace c = false := by
  simp only [Char.isDigit, Bool.and_eq_true, decide_eq_true_eq] at digit
  have lower : '0' ≤ c := digit.1
  simp only [isSpace, Bool.or_eq_false_iff, beq_eq_false_iff_ne, Bool.and_eq_false_iff, decide_eq_false_iff_not]
  refine ⟨?_, Or.inr ?_⟩
  · rintro rfl
    exact absurd lower (by decide)
  · intro upper
    exact absurd (Char.le_trans lower upper) (by decide)

theorem toDigits_cons (n : Nat) :
    ∃ head tail, Nat.toDigits 10 n = head :: tail ∧ head.isDigit = true ∧
      ∀ c ∈ head :: tail, c.isDigit = true := by
  have digits : ∀ c ∈ Nat.toDigits 10 n, c.isDigit = true := fun c member =>
    Nat.isDigit_of_mem_toDigits (by decide) (by decide) member
  cases shape : Nat.toDigits 10 n with
  | nil => exact absurd shape Nat.toDigits_ne_nil
  | cons head tail =>
    rw [shape] at digits
    exact ⟨head, tail, rfl, digits head (by simp), digits⟩

theorem scanNumeral_digits (n : Nat) : scanNumeral (Nat.toDigits 10 n) = some (false, n) := by
  obtain ⟨head, tail, shape, digit, digits⟩ := toDigits_cons n
  have space : isSpace head = false := isDigit_not_space digit
  have taken : (head :: tail).takeWhile Char.isDigit = head :: tail :=
    List.takeWhile_eq_self_iff.mpr digits
  have sign : scanSign (head :: tail) = (false, head :: tail) := by
    unfold scanSign
    split
    next same => cases same; exact absurd digit (by decide)
    next same => cases same; exact absurd digit (by decide)
    · rfl
  have value : Nat.ofDigitChars 10 (head :: tail) 0 = n := by
    rw [← shape]
    exact Nat.ofDigitChars_ten_toDigits
  rw [shape, scanNumeral, List.dropWhile_cons_of_neg (by simp [space]), sign]
  simp only [taken, value]

theorem scanNumeral_negated (n : Nat) : scanNumeral ('-' :: Nat.toDigits 10 n) = some (true, n) := by
  obtain ⟨head, tail, shape, digit, digits⟩ := toDigits_cons n
  have taken : (head :: tail).takeWhile Char.isDigit = head :: tail :=
    List.takeWhile_eq_self_iff.mpr digits
  have value : Nat.ofDigitChars 10 (head :: tail) 0 = n := by
    rw [← shape]
    exact Nat.ofDigitChars_ten_toDigits
  rw [shape, scanNumeral, List.dropWhile_cons_of_neg (by decide)]
  simp only [scanSign, taken, value]

theorem toList_negSucc (n : Nat) : (toString (Int.negSucc n)).toList = '-' :: Nat.toDigits 10 (n + 1) := by
  change ("-" ++ (n + 1).repr).toList = _
  rw [String.toList_append, Nat.toList_repr]
  rfl

theorem scanNumeral_toString (z : Int) : (scanNumeral (toString z).toList).map signed = some z := by
  cases z with
  | ofNat n =>
    have text : (toString (Int.ofNat n)).toList = Nat.toDigits 10 n := Nat.toList_repr
    rw [text, scanNumeral_digits]
    rfl
  | negSucc n =>
    rw [toList_negSucc, scanNumeral_negated]
    rfl

theorem scan_toString (z : Int) :
    ∃ numeral, scanNumeral (toString z).toList = some numeral ∧ signed numeral = z := by
  have scanned := scanNumeral_toString z
  rw [Option.map_eq_some_iff] at scanned
  exact scanned

@[simp] theorem stoi_repr (v : Int32) : stoi v.toInt.repr = .ok v := by
  obtain ⟨numeral, scanned, value⟩ := scan_toString v.toInt
  have read : stoi (toString v.toInt) = narrow .outOfRange (signed numeral) := by
    rw [stoi, scanned]
    rfl
  rw [← Int.toString_eq_repr, read, value]
  simp

@[simp] theorem stol_repr (v : Int64) : stol v.toInt.repr = .ok v := by
  obtain ⟨numeral, scanned, value⟩ := scan_toString v.toInt
  have inRange : -2 ^ 63 ≤ v.toInt ∧ v.toInt < 2 ^ 63 := ⟨v.le_toInt, v.toInt_lt⟩
  rw [← Int.toString_eq_repr]
  simp only [stol, scanned, found, ensure, value, inRange, bind, Except.bind]
  simp

theorem stoul_toString (n : Nat) (bound : n < 2 ^ 64) : stoul (toString n) = .ok n := by
  have scanned : scanNumeral (toString n).toList = some (false, n) := by
    rw [Nat.toString_eq_repr, Nat.toList_repr, scanNumeral_digits]
  simp only [stoul, scanned, found, ensure, bound, bind, Except.bind]
  simp

theorem stoul_repr {value : Int32} {n : Nat} (same : value.toInt = n) : stoul value.toInt.repr = .ok n := by
  have bound := value.toInt_lt
  rw [same]
  exact stoul_toString n (by omega)

theorem scanNumeral_word (c : Char) (rest : List Char) (space : isSpace c = false)
    (minus : c ≠ '-') (plus : c ≠ '+') (digit : c.isDigit = false) : scanNumeral (c :: rest) = none := by
  have sign : scanSign (c :: rest) = (false, c :: rest) := by
    unfold scanSign
    split
    next same => cases same; exact absurd rfl minus
    next same => cases same; exact absurd rfl plus
    · rfl
  rw [scanNumeral, List.dropWhile_cons_of_neg (by simp [space]), sign]
  simp only [List.takeWhile_cons, digit, Bool.false_eq_true, if_false]

end Cpp
