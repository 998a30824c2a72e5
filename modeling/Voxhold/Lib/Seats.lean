/-
# Voxhold.Lib.Seats — places that are reserved before they are taken

A bounded set of places. Whoever wants one RESERVES it, sets itself up, and TAKES it or CANCELS.
Only reserving checks the bound: taking needs no check as long as the reservation is there
(`used_take_le`).
-/

import Mathlib.Data.List.AList

namespace Voxhold.Lib

/-- The taken places, by who took them, and the number of reserved ones. -/
structure Seats (K V : Type) where
  taken : AList fun _ : K => V
  reserved : Nat

namespace Seats

section Reserving

variable {K V : Type} (s : Seats K V) (max : Nat)

def none : Seats K V :=
  ⟨∅, 0⟩

def used : Nat :=
  s.taken.keys.length + s.reserved

def reserve : Option (Seats K V) :=
  if max ≤ s.used then .none else some { s with reserved := s.reserved + 1 }

@[grind] def cancel : Seats K V :=
  { s with reserved := s.reserved - 1 }

/-- Nobody sits here and nobody is about to. -/
def Vacant : Prop :=
  s.taken.keys = [] ∧ s.reserved = 0
deriving Decidable

variable {s max}

theorem reserve_eq_some {s' : Seats K V} (h : s.reserve max = some s') :
    s.used < max ∧ s' = { s with reserved := s.reserved + 1 } := by
  unfold reserve at h
  split at h
  · cases h
  · next hlt => exact ⟨Nat.lt_of_not_le hlt, (Option.some.inj h).symm⟩

theorem reserve_eq_none_iff : s.reserve max = .none ↔ max ≤ s.used := by
  unfold reserve
  split
  · next hle => simp [hle]
  · next hlt => simp [hlt]

theorem used_of_reserve {s' : Seats K V} (h : s.reserve max = some s') : s'.used ≤ max := by
  obtain ⟨hlt, rfl⟩ := reserve_eq_some h
  show s.taken.keys.length + (s.reserved + 1) ≤ max
  unfold used at hlt
  omega

theorem used_cancel_le : s.cancel.used ≤ s.used := by
  show s.taken.keys.length + (s.reserved - 1) ≤ s.taken.keys.length + s.reserved
  omega

theorem Vacant.cancel (h : s.Vacant) : s.cancel.Vacant :=
  ⟨h.1, by show s.reserved - 1 = 0; rw [h.2]⟩

theorem Vacant.reserve_ne_none (h : s.Vacant) (hmax : 0 < max) : s.reserve max ≠ .none := by
  rw [Ne, reserve_eq_none_iff]
  unfold used
  rw [h.1, h.2]
  exact Nat.not_le.mpr hmax

end Reserving

section Taking

variable {K V : Type} [DecidableEq K] (s : Seats K V) (k : K) (v : V)

@[grind] def take : Seats K V :=
  ⟨s.taken.insert k v, s.reserved - 1⟩

@[grind] def vacate : Seats K V :=
  { s with taken := s.taken.erase k }

variable {s}

theorem used_take_le (h : 0 < s.reserved) : (s.take k v).used ≤ s.used := by
  have hlength : (s.taken.insert k v).keys.length ≤ s.taken.keys.length + 1 := by
    rw [AList.keys_insert, List.length_cons]
    exact Nat.succ_le_succ (List.length_erase_le ..)
  show (s.taken.insert k v).keys.length + (s.reserved - 1) ≤ s.taken.keys.length + s.reserved
  omega

theorem used_vacate_le : (s.vacate k).used ≤ s.used := by
  have hlength : (s.taken.erase k).keys.length ≤ s.taken.keys.length := by
    rw [AList.keys_erase]
    exact List.length_erase_le ..
  show (s.taken.erase k).keys.length + s.reserved ≤ s.taken.keys.length + s.reserved
  omega

theorem not_vacant_of_lookup (h : s.taken.lookup k = some v) : ¬s.Vacant := by
  intro hvacant
  have hmem : k ∈ s.taken.keys := AList.lookup_isSome.mp (by rw [h]; rfl)
  rw [hvacant.1] at hmem
  cases hmem

theorem Vacant.vacate (h : s.Vacant) : (s.vacate k).Vacant :=
  ⟨by show (s.taken.erase k).keys = []; rw [AList.keys_erase, h.1]; rfl, h.2⟩

end Taking

end Seats

end Voxhold.Lib
