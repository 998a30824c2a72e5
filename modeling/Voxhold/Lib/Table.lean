/-
# Voxhold.Lib.Table — tables with a key that only grows

A table that hands out its keys itself, from one on and never twice, as `INTEGER PRIMARY KEY
AUTOINCREMENT` does. No row is stored under a key that was not handed out.
-/

import Mathlib.Data.List.Basic
import Mathlib.Logic.Function.Basic
import Mathlib.Order.Nat

namespace Voxhold.Lib

open List Option

/-- Rows by key, and the next key to hand out. -/
structure Table (V : Type) where
  get : ℕ → Option V
  next : ℕ
  next_pos : 0 < next
  get_zero : get 0 = none
  get_unused : ∀ id, next ≤ id → get id = none

namespace Table

variable {V : Type} (t : Table V) {id k : ℕ} {v w : V}

def empty : Table V where
  get := fun _ => none
  next := 1
  next_pos := Nat.one_pos
  get_zero := rfl
  get_unused := fun _ _ => rfl

/-- Stores a row under the next key. -/
def insert (v : V) : Table V where
  get := Function.update t.get t.next (some v)
  next := t.next + 1
  next_pos := Nat.succ_pos _
  get_zero := by rw [Function.update_of_ne (Nat.ne_of_lt t.next_pos), t.get_zero]
  get_unused id hid := by
    rw [Function.update_of_ne (by omega), t.get_unused id (by omega)]

/-- Changes or removes the rows, each by its key. -/
def alter (f : ℕ → V → Option V) : Table V where
  get := fun id => (t.get id).bind (f id)
  __ := t
  get_zero := by rw [t.get_zero, bind_none]
  get_unused id hid := by
    rw [t.get_unused id hid, bind_none]

def modify (id : ℕ) (f : V → V) : Table V :=
  t.alter fun k v => some (if k = id then f v else v)

def erase (id : ℕ) : Table V :=
  t.alter fun k v => if k = id then none else some v

def eraseAll (p : ℕ → Bool) : Table V :=
  t.alter fun id v => if p id then none else some v

/-- `DELETE … WHERE`. -/
def delete (p : V → Bool) : Table V :=
  t.alter fun _ v => if p v then none else some v

/-- A row is stored under the key. -/
def Has (id : ℕ) : Prop := (t.get id).isSome
deriving Decidable

/-- The rows in the order of their keys. -/
def toList : List (ℕ × V) :=
  (List.range t.next).filterMap fun id => (t.get id).map fun v => (id, v)

@[simp] theorem next_insert : (t.insert v).next = t.next + 1 := rfl

@[simp] theorem next_alter (f : ℕ → V → Option V) : (t.alter f).next = t.next := rfl

@[simp] theorem get_next : t.get t.next = none :=
  t.get_unused t.next le_rfl

theorem get_insert : (t.insert v).get k = if k = t.next then some v else t.get k :=
  Function.update_apply ..

@[simp] theorem get_insert_next : (t.insert v).get t.next = some v :=
  Function.update_self ..

theorem get_insert_of_ne (h : k ≠ t.next) : (t.insert v).get k = t.get k :=
  Function.update_of_ne h ..

@[simp] theorem get_alter (f : ℕ → V → Option V) : (t.alter f).get k = (t.get k).bind (f k) := rfl

theorem get_modify (f : V → V) :
    (t.modify id f).get k = if k = id then (t.get k).map f else t.get k := by
  rw [modify, get_alter]
  by_cases hk : k = id
  · cases t.get k <;> simp [hk]
  · cases t.get k <;> simp [hk]

theorem get_erase : (t.erase id).get k = if k = id then none else t.get k := by
  rw [erase, get_alter]
  by_cases hk : k = id
  · cases t.get k <;> simp [hk]
  · cases t.get k <;> simp [hk]

theorem get_eraseAll_eq_some {p : ℕ → Bool} : (t.eraseAll p).get k = some v ↔ t.get k = some v ∧
    p k = false := by
  rw [eraseAll, get_alter]
  cases t.get k with
  | none => simp
  | some w => cases p k <;> simp

theorem get_delete (p : V → Bool) : (t.delete p).get k = (t.get k).filter fun v => !p v := by
  rw [delete, get_alter]
  cases t.get k with
  | none => rfl
  | some v => cases hp : p v <;> simp [hp, Option.filter]

theorem get_delete_eq_some {p : V → Bool} : (t.delete p).get k = some v ↔ t.get k = some v ∧
    p v = false := by
  rw [get_delete]
  simp

theorem has_of_get {t : Table V} (h : t.get id = some v) : t.Has id := by
  simp [Has, h]

theorem has_insert {t : Table V} (h : t.Has id) : (t.insert v).Has id := by
  unfold Has
  rw [get_insert]
  split
  · rfl
  · exact h

theorem has_modify {t : Table V} {f : V → V} (h : t.Has id) : (t.modify k f).Has id := by
  unfold Has
  rw [get_modify]
  split
  · rw [isSome_map]
    exact h
  · exact h

theorem Has.ne_next {t : Table V} (h : t.Has id) : id ≠ t.next := by
  rintro rfl
  simp [Has] at h

theorem lt_next_of_get {t : Table V} (h : t.get id = some v) : id < t.next := by
  by_contra hlt
  rw [t.get_unused id (not_lt.mp hlt)] at h
  cases h

@[simp] theorem mem_toList {t : Table V} : (id, v) ∈ t.toList ↔ t.get id = some v := by
  simp only [toList, mem_filterMap, mem_range, map_eq_some_iff, Prod.mk.injEq]
  constructor
  · rintro ⟨k, -, w, hget, rfl, rfl⟩
    exact hget
  · intro hget
    exact ⟨id, lt_next_of_get hget, v, hget, rfl, rfl⟩

theorem toList_sorted : t.toList.Pairwise fun x y => x.1 < y.1 := by
  refine pairwise_filterMap.mpr (pairwise_lt_range.imp ?_)
  rintro a b hab x hx y hy
  obtain ⟨v, -, rfl⟩ := map_eq_some_iff.mp hx
  obtain ⟨w, -, rfl⟩ := map_eq_some_iff.mp hy
  exact hab

theorem toList_insert : (t.insert v).toList = t.toList ++ [(t.next, v)] := by
  have hold : ∀ id ∈ List.range t.next, ((t.insert v).get id).map (fun w => (id, w)) =
      (t.get id).map fun w => (id, w) := by
    intro id hid
    rw [get_insert_of_ne t (Nat.ne_of_lt (mem_range.mp hid))]
  rw [toList, next_insert, range_succ, filterMap_append, filterMap_congr hold]
  simp [toList]

theorem toList_alter (f : ℕ → V → Option V) : (t.alter f).toList =
    t.toList.filterMap fun x => (f x.1 x.2).map fun w => (x.1, w) := by
  rw [toList, toList, filterMap_filterMap]
  refine filterMap_congr fun id _ => ?_
  rw [get_alter]
  cases t.get id <;> rfl

theorem toList_modify (t : Table V) (id : ℕ) (f : V → V) :
    (t.modify id f).toList = t.toList.map fun x => (x.1, if x.1 = id then f x.2 else x.2) := by
  rw [modify, toList_alter, ← filterMap_eq_map]
  rfl

theorem keys_filter (p : V → Bool) : (t.toList.filter fun x => p x.2).map Prod.fst =
    (List.range t.next).filter fun id => (t.get id).any p := by
  rw [toList, filter_filterMap, map_filterMap, ← filterMap_eq_filter]
  refine filterMap_congr fun id _ => ?_
  cases hget : t.get id with
  | none => simp [Option.guard, hget]
  | some v => cases hp : p v <;> simp [Option.guard, Option.filter, hget, hp]

end Table

end Voxhold.Lib
