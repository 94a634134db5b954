import Mathlib.Data.Option.Basic
import Mathlib.Tactic.Common

namespace Checked
variable {max a b x : Int}

/-- A value of the signed two's complement type whose largest value is `max`. -/
def Fits (max x : Int) : Prop := -max - 1 ≤ x ∧ x ≤ max

instance : Decidable (Fits max x) := inferInstanceAs (Decidable (_ ∧ _))

/-- An exact result, where it is a value of the type. -/
def fit (max x : Int) : Option Int := if Fits max x then some x else none

def add (max a b : Int) : Option Int := fit max (a + b)

def sub (max a b : Int) : Option Int := fit max (a - b)

theorem fit_of_fits (h : Fits max x) : fit max x = some x := by
  simp [fit, h]

@[simp] theorem fit_isSome : (fit max x).isSome = true ↔ Fits max x := by
  by_cases h : Fits max x <;> simp [fit, h]

theorem fit_eq_some {y : Int} : fit max x = some y ↔ Fits max x ∧ y = x := by
  by_cases h : Fits max x <;> simp [fit, h, eq_comm]

theorem add_of_fits (h : Fits max (a + b)) : add max a b = some (a + b) := fit_of_fits h

theorem sub_of_fits (h : Fits max (a - b)) : sub max a b = some (a - b) := fit_of_fits h

/-- Anything between zero and the largest value is a value. -/
theorem fits_of_nonneg (h : 0 ≤ x) (h' : x ≤ max) : Fits max x := by
  unfold Fits
  omega

end Checked
