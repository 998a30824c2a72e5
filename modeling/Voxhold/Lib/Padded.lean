/-
# Voxhold.Lib.Padded — a list with marked elements inserted

`Padded P xs ys`: `ys` is `xs` with elements satisfying `P` inserted, the contract of a queue that
may add entries of its own but has to keep those it was given.
-/

import Mathlib.Data.List.Basic

namespace Voxhold.Lib

variable {α : Type*} {P : α → Prop} {xs ys zs us vs : List α}

/-- `ys` is `xs` with elements satisfying `P` inserted. -/
inductive Padded (P : α → Prop) : List α → List α → Prop where
  | nil : Padded P [] []
  | keep (x : α) {xs ys : List α} : Padded P xs ys → Padded P (x :: xs) (x :: ys)
  | pad {y : α} {xs ys : List α} : P y → Padded P xs ys → Padded P xs (y :: ys)

namespace Padded

@[refl] theorem refl (xs : List α) : Padded P xs xs := by
  induction xs with
  | nil => exact nil
  | cons x xs ih => exact keep x ih

theorem append (h : Padded P xs ys) (h' : Padded P us vs) : Padded P (xs ++ us) (ys ++ vs) := by
  induction h with
  | nil => exact h'
  | keep x _ ih => exact keep x ih
  | pad hy _ ih => exact pad hy ih

theorem trans (h : Padded P xs ys) (h' : Padded P ys zs) : Padded P xs zs := by
  induction h' generalizing xs with
  | nil => exact h
  | keep z _ ih =>
    cases h with
    | keep _ h => exact keep z (ih h)
    | pad hz h => exact pad hz (ih h)
  | pad hz _ ih => exact pad hz (ih h)

theorem insert {y : α} (hy : P y) (xs us : List α) : Padded P (xs ++ us) (xs ++ y :: us) :=
  (refl xs).append (pad hy (refl us))

end Padded

end Voxhold.Lib
