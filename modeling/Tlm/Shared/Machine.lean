import Mathlib.Algebra.BigOperators.Group.List.Lemmas
import Mathlib.Algebra.Order.BigOperators.Group.List
import Mathlib.Tactic.Ring
import Mathlib.Tactic.Linarith

set_option autoImplicit false

namespace Cpp

variable {z : Int}

theorem bmod32_of_fits (low : -2 ^ 31 ≤ z) (high : z < 2 ^ 31) : z.bmod (2 ^ 32) = z :=
  Int.bmod_eq_of_le (by omega) (by omega)

theorem bmod64_of_fits (low : -2 ^ 63 ≤ z) (high : z < 2 ^ 63) : z.bmod (2 ^ 64) = z :=
  Int.bmod_eq_of_le (by omega) (by omega)

variable {a b : Int32}

theorem toInt_mul_of_fits (low : -2 ^ 31 ≤ a.toInt * b.toInt) (high : a.toInt * b.toInt < 2 ^ 31) : (a * b).toInt = a.toInt * b.toInt := by
  rw [Int32.toInt_mul, bmod32_of_fits low high]

theorem toInt_div_of_nonneg (dividend : 0 ≤ a.toInt) (divisor : 0 < b.toInt) :
    (a / b).toInt = a.toInt / b.toInt := by
  have nonneg : 0 ≤ a.toInt / b.toInt := Int.ediv_nonneg dividend divisor.le
  have bound : a.toInt / b.toInt ≤ a.toInt := Int.ediv_le_self _ dividend
  have := a.toInt_lt
  rw [Int32.toInt_div, Int.tdiv_eq_ediv_of_nonneg dividend]
  exact bmod32_of_fits (by omega) (by omega)

theorem mod_eq_zero_iff_dvd (dividend : 0 ≤ a.toInt) : a % b = 0 ↔ b.toInt ∣ a.toInt := by
  rw [← Int32.toInt_inj, Int32.toInt_mod, Int.tmod_eq_emod_of_nonneg dividend,
    Int32.toInt_zero, Int.dvd_iff_emod_eq_zero]

def product (values : List Int32) : Int :=
  (values.map Int32.toInt).prod

-- `int prod = 1; for (int x : values) prod *= x;`
def intProduct (values : List Int32) : Int32 :=
  values.foldl (· * ·) 1

def int64Product (values : List Int32) : Int64 :=
  values.foldl (fun prod x => prod * x.toInt64) 1

@[simp] theorem product_nil : product [] = 1 := rfl

@[simp] theorem product_cons (value : Int32) (values : List Int32) :
    product (value :: values) = value.toInt * product values := by
  simp [product]

theorem toInt_intProduct (values : List Int32) :
    (intProduct values).toInt = (product values).bmod (2 ^ 32) := by
  have fold : ∀ start : Int32, (values.foldl (· * ·) start).toInt =
      (start.toInt * product values).bmod (2 ^ 32) := by
    induction values with
    | nil =>
      intro start
      rw [List.foldl_nil, product_nil, mul_one, bmod32_of_fits start.le_toInt start.toInt_lt]
    | cons value values ih =>
      intro start
      rw [List.foldl_cons, ih, Int32.toInt_mul, Int.bmod_mul_bmod, product_cons, mul_assoc]
  simpa [intProduct] using fold 1

theorem toInt_int64Product (values : List Int32) :
    (int64Product values).toInt = (product values).bmod (2 ^ 64) := by
  have fold : ∀ start : Int64, (values.foldl (fun prod x => prod * x.toInt64) start).toInt =
      (start.toInt * product values).bmod (2 ^ 64) := by
    induction values with
    | nil =>
      intro start
      rw [List.foldl_nil, product_nil, mul_one, bmod64_of_fits start.le_toInt start.toInt_lt]
    | cons value values ih =>
      intro start
      rw [List.foldl_cons, ih, Int64.toInt_mul, Int32.toInt_toInt64, Int.bmod_mul_bmod, product_cons, mul_assoc]
  simpa [int64Product] using fold 1

variable {values : List Int32}

theorem product_pos (pos : ∀ value ∈ values, 1 ≤ value.toInt) : 1 ≤ product values := by
  induction values with
  | nil => simp
  | cons value values ih =>
    have head := pos value (by simp)
    have tail := ih fun v member => pos v (List.mem_cons_of_mem _ member)
    rw [product_cons]
    nlinarith

theorem dvd_product {value : Int32} (member : value ∈ values) : value.toInt ∣ product values :=
  List.dvd_prod (List.mem_map_of_mem member)

theorem mul_dvd_product {i k : Nat} (atI : values[i]? = some a) (atK : values[k]? = some b)
    (apart : i ≠ k) : a.toInt * b.toInt ∣ product values := by
  obtain ⟨bound, rfl⟩ := List.getElem?_eq_some_iff.mp atI
  have mapped : (values.map Int32.toInt)[k]? = some b.toInt := by simp [atK]
  have left : b.toInt ∈ (values.map Int32.toInt).eraseIdx i :=
    List.mem_eraseIdx_iff_getElem?.mpr ⟨k, apart.symm, mapped⟩
  have split := List.CommMonoid.mul_prod_eraseIdx (l := values.map Int32.toInt)
    (show i < (values.map Int32.toInt).length by simpa using bound)
  rw [List.getElem_map] at split
  rw [product, ← split]
  exact mul_dvd_mul_left _ (List.dvd_prod left)

end Cpp
