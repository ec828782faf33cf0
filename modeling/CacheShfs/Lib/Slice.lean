import Mathlib.Data.List.Basic
import Mathlib.Tactic.Ring

/-!
# Slices of a list and their assembly from fixed-width chunks

`slice xs a b` is the half-open piece `xs[a..b)`, truncated at the end of the list.  Slices
compose (`slice_append`), and a piece of a slice is a slice (`take_drop_slice`).

The main result is `chunk_assembly`: cutting positions at the multiples of a width `w`, the
pieces of `[o, e)` that fall into the chunks `o / w, …, (e - 1) / w` concatenate to the slice
itself.  This is the arithmetic behind any store that keeps a sequence in blocks and answers
range reads from them.
-/

namespace Slice

variable {α : Type*}

/-- The piece `xs[a..b)`, truncated at the end of the list. -/
def slice (xs : List α) (a b : ℕ) : List α := (xs.take b).drop a

lemma length_slice (xs : List α) (a b : ℕ) :
    (slice xs a b).length = min b xs.length - a := by
  simp [slice]

lemma slice_eq_nil_of_le (xs : List α) {a b : ℕ} (h : b ≤ a) : slice xs a b = [] := by
  apply List.eq_nil_of_length_eq_zero
  rw [length_slice]
  omega

/-- The upper end only matters up to the length of the list. -/
lemma slice_min_length (xs : List α) (a b : ℕ) :
    slice xs a (min b xs.length) = slice xs a b := by
  rw [slice, slice, List.take_eq_take_iff.mpr]
  omega

/-- Adjacent slices concatenate. -/
lemma slice_append (xs : List α) {a b c : ℕ} (hab : a ≤ b) (hbc : b ≤ c) :
    slice xs a b ++ slice xs b c = slice xs a c := by
  apply List.ext_getElem?
  intro i
  simp only [slice, List.getElem?_append, List.getElem?_drop, List.getElem?_take,
    List.length_drop, List.length_take]
  by_cases hi : i < min b xs.length - a
  · have h₁ : a + i < b := by omega
    have h₂ : a + i < c := by omega
    simp [hi, h₁, h₂]
  · by_cases hlen : xs.length ≤ b
    · -- the first slice already reaches the end of the list
      have h₁ : xs[b + (i - (min b xs.length - a))]? = none :=
        List.getElem?_eq_none (by omega)
      have h₂ : xs[a + i]? = none := List.getElem?_eq_none (by omega)
      simp [hi, h₁, h₂]
    · have hidx : b + (i - (min b xs.length - a)) = a + i := by omega
      simp [hi, hidx]

/-- A piece of a slice is a slice. -/
lemma take_drop_slice (xs : List α) (a b i n : ℕ) :
    ((slice xs a b).drop i).take n = slice xs (a + i) (min b (a + i + n)) := by
  apply List.ext_getElem?
  intro j
  simp only [slice, List.getElem?_take, List.getElem?_drop]
  by_cases hj : j < n
  · by_cases hb : a + (i + j) < b
    · have h₁ : a + i + j < min b (a + i + n) := by omega
      simp [hj, h₁, ← Nat.add_assoc, show a + i + j < b by omega]
    · have h₁ : ¬ a + i + j < min b (a + i + n) := by omega
      simp [hj, hb, h₁]
  · have h₁ : ¬ a + i + j < min b (a + i + n) := by omega
    simp [hj, h₁]

/-- Extending a slice that starts at `a` by a prefix of what follows it. -/
lemma slice_append_of_initial (xs : List α) {a b n : ℕ} {d : List α} (hab : a ≤ b)
    (hd : d <+: slice xs b (b + n)) :
    slice xs a b ++ d = slice xs a (b + d.length) := by
  have hlen : d.length ≤ min (b + n) xs.length - b := by
    have h := hd.length_le
    rwa [length_slice] at h
  have heq : d = slice xs b (b + d.length) := by
    have h : d = (slice xs b (b + n)).take d.length := (List.prefix_iff_eq_take.mp hd)
    have hslice := take_drop_slice xs b (b + n) 0 d.length
    simp only [List.drop_zero, Nat.add_zero] at hslice
    rw [hslice, show min (b + n) (b + d.length) = b + d.length by omega] at h
    exact h
  conv_lhs => rw [heq]
  exact slice_append xs hab (by omega)

/-- **Chunk assembly.**  The pieces of `[o, e)` lying in the chunks `o / w, …, (e - 1) / w`
concatenate to `xs[o..e)`. -/
theorem chunk_assembly (xs : List α) {w : ℕ} (hw : 0 < w) {o e : ℕ} (hoe : o < e) :
    (List.range' (o / w) ((e - 1) / w + 1 - o / w)).flatMap
        (fun k => slice xs (max o (k * w)) (min e (k * w + w))) = slice xs o e := by
  obtain ⟨n, hn⟩ : ∃ n, (e - 1) / w + 1 - o / w = n := ⟨_, rfl⟩
  induction n generalizing o with
  | zero =>
      have hle : o / w ≤ (e - 1) / w := Nat.div_le_div_right (by omega)
      omega
  | succ n ih =>
      set k := o / w with hk
      have hlow : k * w ≤ o := Nat.div_mul_le_self o w
      have hhigh : o < k * w + w := by
        have h := Nat.lt_div_mul_add hw (a := o)
        rwa [← hk] at h
      rw [hn, List.range'_succ, List.flatMap_cons, max_eq_left hlow]
      rcases Nat.eq_zero_or_pos n with hzero | hpos
      · -- the range ends inside this chunk
        have hlast : (e - 1) / w = k := by
          have hle : k ≤ (e - 1) / w := by
            rw [hk]
            exact Nat.div_le_div_right (by omega)
          omega
        have hend : e - 1 < k * w + w := by
          have h := Nat.lt_div_mul_add hw (a := e - 1)
          rwa [hlast] at h
        rw [hzero, min_eq_left (by omega)]
        simp
      · -- the range goes on: continue at the next multiple of the width
        have hnext : (k + 1) * w ≤ e - 1 :=
          (Nat.le_div_iff_mul_le hw).mp (by omega)
        have hsucc : (k + 1) * w = k * w + w := by ring
        have hdiv : (k + 1) * w / w = k + 1 := Nat.mul_div_cancel _ hw
        have hrec := ih (o := (k + 1) * w) (by omega) (by rw [hdiv]; omega)
        rw [hdiv, show (e - 1) / w + 1 - (k + 1) = n by omega] at hrec
        have hcongr : (List.range' (k + 1) n).flatMap
              (fun j => slice xs (max o (j * w)) (min e (j * w + w)))
            = (List.range' (k + 1) n).flatMap
              (fun j => slice xs (max ((k + 1) * w) (j * w)) (min e (j * w + w))) := by
          apply List.flatMap_congr
          intro j hj
          have hkj : k + 1 ≤ j := (List.mem_range'_1.mp hj).1
          have hmul : (k + 1) * w ≤ j * w := Nat.mul_le_mul_right w hkj
          rw [max_eq_right hmul, max_eq_right (by omega)]
        rw [hcongr, hrec, min_eq_right (by omega), ← hsucc]
        exact slice_append xs (by omega) (by omega)

end Slice
