/-
# Voxhold.Lib.Indexed — tables with a unique index

A `Table` whose rows may have a second key of their own, and no two the same one, as a `UNIQUE`
column has it. A lookup by the second key finds a row exactly if it is there (`find_eq_some`).
-/

import Voxhold.Lib.Table

namespace Voxhold.Lib

/-- A table with an index. A row with no key is not in the index. -/
structure Indexed (V K : Type) (key : V → Option K) extends Table V where
  unique : ∀ {i j v w k}, get i = some v → get j = some w → key v = some k → key w = some k → i = j

namespace Indexed

variable {V K : Type} {key : V → Option K} (t : Indexed V K key) {id : ℕ} {v w : V} {k : K}

def empty : Indexed V K key where
  toTable := .empty
  unique := fun h => absurd h nofun

/-- Changes or removes rows. A row that stays keeps its key. -/
def alter (f : ℕ → V → Option V) (hf : ∀ id v w, f id v = some w → key w = key v) :
    Indexed V K key where
  toTable := t.toTable.alter f
  unique := by
    intro i j v' w' k hi hj hv hw
    obtain ⟨v, hget, hv'⟩ := Option.bind_eq_some_iff.mp hi
    obtain ⟨w, hget', hw'⟩ := Option.bind_eq_some_iff.mp hj
    exact t.unique hget hget' (hf i v v' hv' ▸ hv) (hf j w w' hw' ▸ hw)

variable [DecidableEq K]

def find (k : K) : Option (ℕ × V) :=
  t.toList.find? fun x => key x.2 = some k

theorem find_eq_some : t.find k = some (id, v) ↔ t.get id = some v ∧ key v = some k := by
  constructor
  · intro h
    exact ⟨Table.mem_toList.mp (List.mem_of_find?_eq_some h),
      of_decide_eq_true (List.find?_some h :)⟩
  · rintro ⟨hget, hkey⟩
    cases hfind : t.find k with
    | none =>
      have hnone := List.find?_eq_none.mp hfind (id, v) (Table.mem_toList.mpr hget)
      exact absurd (decide_eq_true hkey) hnone
    | some x =>
      obtain ⟨id', v'⟩ := x
      have hget' := Table.mem_toList.mp (List.mem_of_find?_eq_some hfind)
      have hkey' := of_decide_eq_true (List.find?_some hfind :)
      obtain rfl := t.unique hget hget' hkey hkey'
      rw [Option.mem_unique hget hget']

theorem find_eq_none : t.find k = none ↔ ∀ id v, t.get id = some v → key v ≠ some k := by
  constructor
  · intro h id v hget hkey
    rw [t.find_eq_some.mpr ⟨hget, hkey⟩] at h
    cases h
  · intro h
    cases hfind : t.find k with
    | none => rfl
    | some x =>
      obtain ⟨hget, hkey⟩ := t.find_eq_some.mp hfind
      exact absurd hkey (h x.1 x.2 hget)

/-- The key of a new row is free. -/
def Free (v : V) : Prop := (key v).bind t.find = none
deriving Decidable

theorem Free.ne {t : Indexed V K key} (h : t.Free v) (hget : t.get id = some w)
    (hv : key v = some k) : key w ≠ some k := by
  unfold Free at h
  rw [hv, Option.bind_some] at h
  exact t.find_eq_none.mp h id w hget

/-- Stores a row whose key is free under the next key of the table. -/
def insert (v : V) (hv : t.Free v) : Indexed V K key where
  toTable := t.toTable.insert v
  unique := by
    intro i j v' w' k hi hj hv' hw'
    rw [Table.get_insert] at hi hj
    split at hi <;> split at hj
    next hi' hj' => rw [hi', hj']
    · cases hi
      exact absurd hw' (hv.ne hj hv')
    · cases hj
      exact absurd hv' (hv.ne hi hw')
    · exact t.unique hi hj hv' hw'

end Indexed

end Voxhold.Lib
