import Mathlib.Algebra.Group.Int.Defs
import Mathlib.Order.Lattice
import Mathlib.Tactic.Ring

/-!
# Signed machine arithmetic

Integers of a fixed width in two's complement.  A result that leaves the range wraps (`wrap`), is
replaced by the nearest bound (`clamp`), or is refused (`checkedSub`); one that does not is exact
in each case.
-/

namespace Signed

/-- The least number of `w` bits. -/
def least (w : ℕ) : ℤ := -2 ^ (w - 1)

/-- The greatest number of `w` bits. -/
def greatest (w : ℕ) : ℤ := 2 ^ (w - 1) - 1

/-- The number has `w` bits. -/
def Fits (w : ℕ) (x : ℤ) : Prop := least w ≤ x ∧ x ≤ greatest w

instance decidableFits (w : ℕ) (x : ℤ) : Decidable (Fits w x) :=
  inferInstanceAs (Decidable (least w ≤ x ∧ x ≤ greatest w))

/-- The number of `w` bits that is nearest. -/
def clamp (w : ℕ) (x : ℤ) : ℤ := max (least w) (min x (greatest w))

/-- The number of `w` bits with the same lowest bits. -/
def wrap (w : ℕ) (x : ℤ) : ℤ := x.bmod (2 ^ w)

/-- `a + b`, or the nearest bound. -/
def satAdd (w : ℕ) (a b : ℤ) : ℤ := clamp w (a + b)

/-- `a * b`, or the nearest bound. -/
def satMul (w : ℕ) (a b : ℤ) : ℤ := clamp w (a * b)

/-- `a - b`, wrapping around. -/
def wrappingSub (w : ℕ) (a b : ℤ) : ℤ := wrap w (a - b)

/-- `a - b`, if it has `w` bits. -/
def checkedSub (w : ℕ) (a b : ℤ) : Option ℤ := if Fits w (a - b) then some (a - b) else none

variable {w : ℕ} {a b c x y : ℤ}

/-! ## Clamping -/

lemma least_le_greatest (w : ℕ) : least w ≤ greatest w := by
  have hpos : (0 : ℤ) < 2 ^ (w - 1) := Int.pow_pos (by decide)
  rw [least, greatest]
  omega

/-- Clamping before something is added, too, makes no difference above a bound that the sum stays
below if the first clamp raises its argument. -/
lemma max_satAdd_clamp (hc : 0 ≤ c) (hleast : least w + c ≤ b) :
    max (satAdd w (clamp w x) c) b = max (clamp w (x + c)) b := by
  have hle := least_le_greatest w
  rw [satAdd, clamp, clamp, clamp]
  omega

/-! ## Wrapping -/

/-- The number of `w` bits that differs by a multiple of `2 ^ w`. -/
lemma wrap_eq (hw : 0 < w) (hy : Fits w y) {k : ℤ} (h : x = y + 2 ^ w * k) : wrap w x = y := by
  obtain ⟨hleast, hgreatest⟩ := hy
  obtain ⟨v, rfl⟩ : ∃ v, w = v + 1 := ⟨w - 1, by omega⟩
  have hcast : ((2 ^ (v + 1) : ℕ) : ℤ) = 2 ^ (v + 1) := by simp
  have hdouble : (2 : ℤ) ^ (v + 1) = 2 ^ v * 2 := pow_succ 2 v
  simp only [least, greatest, Nat.add_sub_cancel] at hleast hgreatest
  rw [wrap, h, ← hcast, Int.add_mul_bmod_self_left]
  apply Int.bmod_eq_of_le_mul_two
  · rw [hcast]
    omega
  · rw [hcast]
    omega

lemma wrap_of_fits (hw : 0 < w) (h : Fits w x) : wrap w x = x :=
  wrap_eq hw h (k := 0) (by simp)

lemma checkedSub_eq_some : checkedSub w a b = some c ↔ Fits w (a - b) ∧ a - b = c := by
  simp [checkedSub]

lemma checkedSub_eq_none : checkedSub w a b = none ↔ ¬ Fits w (a - b) := by simp [checkedSub]

/-- Where the checked difference does not fail, wrapping does nothing. -/
lemma wrappingSub_of_checkedSub (hw : 0 < w) (h : checkedSub w a b = some c) :
    wrappingSub w a b = c := by
  obtain ⟨hfits, rfl⟩ := checkedSub_eq_some.mp h
  exact wrap_of_fits hw hfits

end Signed
