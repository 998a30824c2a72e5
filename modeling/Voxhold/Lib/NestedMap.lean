/-
# Voxhold.Lib.NestedMap — maps of maps that keep no empty inner map

An index kept as `map[K]map[L]V`: `put` creates the inner map of a key, `drop` removes it with its
last entry. No inner map is ever left empty. A map of sets is the case where `V` is `Unit`.
-/

import Mathlib.Data.List.AList
import Mathlib.Data.List.Perm.Subperm

namespace Voxhold.Lib

open AList

/-! ## Flat maps -/

section Flat

variable {K V : Type} [DecidableEq K] (m : AList fun _ : K => V) (k k' : K)

@[grind =] theorem lookup_insert_eq_ite (v : V) :
    (m.insert k v).lookup k' = if k' = k then some v else m.lookup k' := by
  split
  · next heq => rw [heq, lookup_insert]
  · next hne => rw [lookup_insert_ne hne]

@[grind =] theorem lookup_erase_eq_ite :
    (m.erase k).lookup k' = if k' = k then none else m.lookup k' := by
  split
  · next heq => rw [heq, lookup_erase]
  · next hne => rw [lookup_erase_ne hne]

def eraseAll (m : AList fun _ : K => V) (ks : List K) : AList fun _ : K => V :=
  ks.foldl (fun m k => m.erase k) m

@[grind =] theorem lookup_eraseAll (ks : List K) :
    (eraseAll m ks).lookup k = if k ∈ ks then none else m.lookup k := by
  induction ks generalizing m with
  | nil => rfl
  | cons k' ks ih =>
    show (eraseAll (m.erase k') ks).lookup k = _
    rw [ih, lookup_erase_eq_ite]
    by_cases hk : k = k' <;> simp [hk]

theorem length_keys_eraseAll_le (ks : List K) : (eraseAll m ks).keys.length ≤ m.keys.length := by
  induction ks generalizing m with
  | nil => exact Nat.le_refl _
  | cons k' ks ih =>
    have herase : (m.erase k').keys.length ≤ m.keys.length := by
      rw [keys_erase]
      exact List.length_erase_le
    exact Nat.le_trans (ih (m.erase k')) herase

end Flat

/-! ## Maps of maps -/

/-- A map from `K` to non-empty maps from `L` to `V`. -/
structure NestedMap (K L V : Type) [DecidableEq K] [DecidableEq L] where
  entries : AList fun _ : K => AList fun _ : L => V
  nonempty : ∀ k inner, entries.lookup k = some inner → inner.keys ≠ []

namespace NestedMap

variable {K L V : Type} [DecidableEq K] [DecidableEq L] {k k' : K} {l l' : L} {v : V}
  {m : NestedMap K L V}

def empty : NestedMap K L V where
  entries := ∅
  nonempty := by simp

/-- The inner map of a key; reading a missing one gives the empty map. -/
def inner (m : NestedMap K L V) (k : K) : AList fun _ : L => V :=
  (m.entries.lookup k).getD ∅

def get (m : NestedMap K L V) (k : K) (l : L) : Option V :=
  (m.inner k).lookup l

def keysAt (m : NestedMap K L V) (k : K) : List L :=
  (m.inner k).keys

def put (m : NestedMap K L V) (k : K) (l : L) (v : V) : NestedMap K L V where
  entries := m.entries.insert k ((m.inner k).insert l v)
  nonempty k' inner hlookup := by
    by_cases hk : k' = k
    · subst hk
      rw [AList.lookup_insert] at hlookup
      rw [← Option.some.inj hlookup, AList.keys_insert]
      exact List.cons_ne_nil _ _
    · rw [AList.lookup_insert_ne hk] at hlookup
      exact m.nonempty k' inner hlookup

def dropAll (m : NestedMap K L V) (k : K) : NestedMap K L V where
  entries := m.entries.erase k
  nonempty k' inner hlookup := by
    by_cases hk : k' = k
    · subst hk
      simp at hlookup
    · rw [AList.lookup_erase_ne hk] at hlookup
      exact m.nonempty k' inner hlookup

/-- Removes one entry, and the inner map with its last one. -/
def drop (m : NestedMap K L V) (k : K) (l : L) : NestedMap K L V :=
  if h : ((m.inner k).erase l).keys = [] then m.dropAll k
  else
    { entries := m.entries.insert k ((m.inner k).erase l)
      nonempty k' inner hlookup := by
        by_cases hk : k' = k
        · subst hk
          rw [AList.lookup_insert] at hlookup
          rwa [← Option.some.inj hlookup]
        · rw [AList.lookup_insert_ne hk] at hlookup
          exact m.nonempty k' inner hlookup }

@[simp] theorem get_empty : (empty : NestedMap K L V).get k l = none := rfl

@[simp] theorem get_put (m : NestedMap K L V) :
    (m.put k l v).get k' l' = if k' = k ∧ l' = l then some v else m.get k' l' := by
  by_cases hk : k' = k
  · subst hk
    by_cases hl : l' = l
    · subst hl
      simp [get, inner, put]
    · simp [get, inner, put, hl]
  · simp [get, inner, put, hk]

@[simp] theorem get_dropAll (m : NestedMap K L V) :
    (m.dropAll k).get k' l' = if k' = k then none else m.get k' l' := by
  by_cases hk : k' = k
  · subst hk
    simp [get, inner, dropAll]
  · simp [get, inner, dropAll, hk]

@[simp] theorem get_drop (m : NestedMap K L V) :
    (m.drop k l).get k' l' = if k' = k ∧ l' = l then none else m.get k' l' := by
  unfold drop
  split
  · next hempty =>
    -- what the erased inner map still held is nothing
    have hnone : ∀ l', l' ≠ l → m.get k l' = none := by
      intro l' hl
      rw [get, ← lookup_erase_ne hl, lookup_eq_none, mem_keys, hempty]
      exact List.not_mem_nil
    rw [get_dropAll]
    by_cases hk : k' = k
    · subst hk
      by_cases hl : l' = l
      · simp [hl]
      · simp [hl, hnone l' hl]
    · simp [hk]
  · by_cases hk : k' = k
    · subst hk
      by_cases hl : l' = l
      · subst hl
        simp [get, inner]
      · simp [get, inner, hl]
    · simp [get, inner, hk]

theorem mem_keysAt : l ∈ m.keysAt k ↔ (m.get k l).isSome := by
  rw [keysAt, ← mem_keys, get, lookup_isSome]

theorem mem_entries : k ∈ m.entries ↔ ∃ l, l ∈ m.keysAt k := by
  rw [← lookup_isSome, Option.isSome_iff_exists]
  constructor
  · rintro ⟨inner, hinner⟩
    obtain ⟨l, hl⟩ := List.exists_mem_of_ne_nil _ (m.nonempty k inner hinner)
    exact ⟨l, by simpa [keysAt, NestedMap.inner, hinner] using hl⟩
  · rintro ⟨l, hl⟩
    cases hinner : m.entries.lookup k with
    | none => simp [keysAt, NestedMap.inner, hinner] at hl
    | some inner => exact ⟨inner, rfl⟩

theorem keysAt_nodup (m : NestedMap K L V) (k : K) : (m.keysAt k).Nodup :=
  (m.inner k).keys_nodup

theorem length_keysAt_le {m' : NestedMap K L V}
    (h : ∀ l, (m'.get k l).isSome → (m.get k l).isSome) :
    (m'.keysAt k).length ≤ (m.keysAt k).length :=
  ((m'.keysAt_nodup k).subperm fun l hl => mem_keysAt.mpr (h l (mem_keysAt.mp hl))).length_le

theorem length_keysAt_put_le (m : NestedMap K L V) :
    ((m.put k l v).keysAt k).length ≤ (m.keysAt k).length + 1 := by
  have hsub : (m.put k l v).keysAt k ⊆ l :: m.keysAt k := by
    intro l' hl'
    rw [mem_keysAt, get_put] at hl'
    by_cases h : l' = l
    · rw [h]
      exact List.mem_cons_self
    · exact List.mem_cons_of_mem _ (mem_keysAt.mpr (by simpa [h] using hl'))
  exact (((m.put k l v).keysAt_nodup k).subperm hsub).length_le

end NestedMap

end Voxhold.Lib
