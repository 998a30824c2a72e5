/-
# Voxhold.Lib.Masks — bit masks of a finite family

The union of the masks of a family, bit by bit: a bit of the union is the largest of that bit over
the family (`sup_and_two_pow`), and the sum of the bits below a width is the union cut off there
(`sum_sup_and_two_pow`).
-/

import Mathlib.Algebra.BigOperators.Group.Finset.Basic
import Mathlib.Data.Finset.Fold
import Mathlib.Data.Finset.Lattice.Fold
import Mathlib.Order.Lattice.Nat
import Mathlib.Data.Nat.Bitwise

namespace Voxhold.Lib.Masks

variable {α : Type} (s : Finset α) (mask : α → ℕ)

/-- The bitwise OR of the masks. -/
def union : ℕ :=
  s.fold (· ||| ·) 0 mask

variable {s mask}

theorem testBit_union {i : ℕ} : (union s mask).testBit i ↔ ∃ a ∈ s, (mask a).testBit i := by
  induction s using Finset.cons_induction with
  | empty => simp [union]
  | cons a s ha ih =>
    have hcons : union (Finset.cons a s ha) mask = mask a ||| union s mask := Finset.fold_cons ha
    rw [hcons, Nat.testBit_or, Bool.or_eq_true, ih]
    simp

theorem sup_and_two_pow (i : ℕ) : (s.sup fun a => mask a &&& 2 ^ i) = union s mask &&& 2 ^ i := by
  rw [Nat.and_two_pow]
  cases hbit : (union s mask).testBit i with
  | false =>
    refine Nat.le_zero.mp (Finset.sup_le ?_) |>.trans (by simp)
    intro a ha
    have hnone : (mask a).testBit i = false := by
      by_contra hset
      have := testBit_union.mpr ⟨a, ha, Bool.eq_true_of_not_eq_false hset⟩
      rw [hbit] at this
      cases this
    simp [Nat.and_two_pow, hnone]
  | true =>
    obtain ⟨a, ha, hset⟩ := testBit_union.mp hbit
    refine le_antisymm (Finset.sup_le ?_) ?_
    · intro b _
      simpa using Nat.and_le_right
    · have hle := Finset.le_sup (f := fun a => mask a &&& 2 ^ i) ha
      simpa [Nat.and_two_pow, hset] using hle

theorem mod_and_two_pow {n i w : ℕ} (hi : i < w) : n % 2 ^ w &&& 2 ^ i = n &&& 2 ^ i := by
  rw [Nat.and_two_pow, Nat.and_two_pow, Nat.testBit_mod_two_pow, decide_eq_true hi, Bool.true_and]

theorem sum_and_two_pow (n w : ℕ) : (∑ i ∈ Finset.range w, (n &&& 2 ^ i)) = n % 2 ^ w := by
  induction w with
  | zero => simp [Nat.mod_one]
  | succ w ih =>
    rw [Finset.sum_range_succ, ih, Nat.mod_pow_succ, Nat.and_two_pow, Nat.toNat_testBit,
      Nat.mul_comm]

theorem sum_sup_and_two_pow (w : ℕ) :
    (∑ i ∈ Finset.range w, s.sup fun a => mask a &&& 2 ^ i) = union s mask % 2 ^ w := by
  rw [← sum_and_two_pow]
  exact Finset.sum_congr rfl fun i _ => sup_and_two_pow i

theorem union_mod_two_pow (w : ℕ) : union s (fun a => mask a % 2 ^ w) = union s mask % 2 ^ w := by
  refine Nat.eq_of_testBit_eq fun i => Bool.eq_iff_iff.mpr ?_
  rw [testBit_union, Nat.testBit_mod_two_pow, Bool.and_eq_true, testBit_union]
  simp only [Nat.testBit_mod_two_pow, Bool.and_eq_true]
  constructor
  · rintro ⟨a, ha, hi, hset⟩
    exact ⟨hi, a, ha, hset⟩
  · rintro ⟨hi, a, ha, hset⟩
    exact ⟨a, ha, hi, hset⟩

end Voxhold.Lib.Masks
