import Mathlib.Algebra.Group.Nat.Defs

/-!
# Checked machine arithmetic

Unsigned arithmetic of a fixed width as a build with overflow checks performs it: an operation
yields the exact result or fails.  `none` is the failure.  A computation written with these
operations fails exactly where the same computation with wrapping operations may differ from the
exact one.
-/

namespace Checked

/-- `a + b`, if it fits `w` bits. -/
def add (w a b : ℕ) : Option ℕ := if a + b < 2 ^ w then some (a + b) else none

/-- `a - b`, if it is not negative. -/
def sub (a b : ℕ) : Option ℕ := if b ≤ a then some (a - b) else none

/-- `a * b`, if it fits `w` bits. -/
def mul (w a b : ℕ) : Option ℕ := if a * b < 2 ^ w then some (a * b) else none

/-- A cast to `w` bits that loses none. -/
def cast (w a : ℕ) : Option ℕ := if a < 2 ^ w then some a else none

variable {w a b c : ℕ}

lemma add_eq_some : add w a b = some c ↔ a + b < 2 ^ w ∧ a + b = c := by simp [add]

lemma mul_eq_some : mul w a b = some c ↔ a * b < 2 ^ w ∧ a * b = c := by simp [mul]

lemma add_of_lt (h : a + b < 2 ^ w) : add w a b = some (a + b) := if_pos h

lemma sub_of_le (h : b ≤ a) : sub a b = some (a - b) := if_pos h

lemma mul_of_lt (h : a * b < 2 ^ w) : mul w a b = some (a * b) := if_pos h

lemma cast_of_lt (h : a < 2 ^ w) : cast w a = some a := if_pos h

end Checked
