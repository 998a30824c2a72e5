/-
# Voxhold.Lib.Keyed — tables whose key is part of the row

A table with a `PRIMARY KEY` of the row's own columns. What it holds is said by its lookups
(`find`), one equation for each way of changing it.
-/

import Mathlib.Data.List.Pairwise

namespace Voxhold.Lib

open List

structure Keyed (V K : Type) (key : V → K) where
  rows : List V
  unique : rows.Pairwise fun v w => key v ≠ key w

namespace Keyed

variable {V K : Type} {key : V → K} {t : Keyed V K key} {v w : V} {k : K}

def empty : Keyed V K key := ⟨[], .nil⟩

theorem eq_of_key (hv : v ∈ t.rows) (hw : w ∈ t.rows) (hkey : key v = key w) : v = w := by
  by_contra hne
  have : Std.Symm fun v w : V => key v ≠ key w := ⟨fun _ _ h => Ne.symm h⟩
  exact t.unique.forall hv hw hne hkey

/-- The rows that a function keeps, as it changes them. A row that stays keeps its key. -/
def alter (t : Keyed V K key) (f : V → Option V) (hf : ∀ v w, f v = some w → key w = key v) :
    Keyed V K key where
  rows := t.rows.filterMap f
  unique := by
    refine t.unique.filterMap f ?_
    intro v w hne v' hv' w' hw'
    rw [hf v v' hv', hf w w' hw']
    exact hne

theorem mem_alter {f : V → Option V} {hf : ∀ v w, f v = some w → key w = key v} :
    w ∈ (t.alter f hf).rows ↔ ∃ v ∈ t.rows, f v = some w :=
  mem_filterMap

/-- `UPDATE … WHERE`. -/
def update (t : Keyed V K key) (p : V → Bool) (f : V → V) (hf : ∀ v, key (f v) = key v) :
    Keyed V K key :=
  t.alter (fun v => some (if p v then f v else v)) (by
    rintro v w ⟨⟩
    split
    · exact hf v
    · rfl)

theorem rows_update {p : V → Bool} {f : V → V} {hf : ∀ v, key (f v) = key v} :
    (t.update p f hf).rows = t.rows.map fun v => if p v then f v else v := by
  rw [← filterMap_eq_map]
  rfl

theorem exists_of_mem_update {p : V → Bool} {f : V → V} {hf : ∀ v, key (f v) = key v}
    (h : w ∈ (t.update p f hf).rows) : ∃ v ∈ t.rows, key w = key v := by
  rw [rows_update] at h
  obtain ⟨v, hv, rfl⟩ := mem_map.mp h
  refine ⟨v, hv, ?_⟩
  split
  · exact hf v
  · rfl

/-- `DELETE … WHERE`. -/
def delete (t : Keyed V K key) (p : V → Bool) : Keyed V K key :=
  t.alter (fun v => if p v then none else some v) (by
    intro v w h
    split at h
    · cases h
    · exact congrArg key (Option.some.inj h).symm)

theorem rows_delete {p : V → Bool} : (t.delete p).rows = t.rows.filter fun v => !p v := by
  rw [← filterMap_eq_filter]
  refine congrArg (t.rows.filterMap ·) (funext fun v => ?_)
  cases hp : p v <;> simp [Option.guard, hp]

theorem mem_delete {p : V → Bool} : v ∈ (t.delete p).rows ↔ v ∈ t.rows ∧ p v = false := by
  rw [delete, mem_alter]
  constructor
  · rintro ⟨w, hw, h⟩
    split at h
    · cases h
    · next hp => exact Option.some.inj h ▸ ⟨hw, by simpa using hp⟩
  · rintro ⟨hv, hp⟩
    exact ⟨v, hv, by simp [hp]⟩

variable [DecidableEq K]

def find (t : Keyed V K key) (k : K) : Option V :=
  t.rows.find? fun v => key v = k

theorem find_eq_some : t.find k = some v ↔ v ∈ t.rows ∧ key v = k := by
  constructor
  · intro h
    exact ⟨mem_of_find?_eq_some h, of_decide_eq_true (List.find?_some h :)⟩
  · rintro ⟨hv, rfl⟩
    cases hfind : t.find (key v) with
    | none => exact absurd (decide_eq_true rfl) (List.find?_eq_none.mp hfind v hv)
    | some w =>
      have hw := mem_of_find?_eq_some hfind
      have hkey := of_decide_eq_true (List.find?_some hfind :)
      rw [eq_of_key hw hv hkey]

theorem find_eq_none : t.find k = none ↔ ∀ v ∈ t.rows, key v ≠ k := by
  simp [find, List.find?_eq_none]

theorem key_of_find (h : t.find k = some v) : key v = k :=
  (find_eq_some.mp h).2

theorem mem_of_find (h : t.find k = some v) : v ∈ t.rows :=
  (find_eq_some.mp h).1

theorem mem_rows : v ∈ t.rows ↔ t.find (key v) = some v := by
  rw [find_eq_some]
  exact ⟨fun h => ⟨h, rfl⟩, fun h => h.1⟩

theorem filter_key : (t.rows.filter fun v => key v = k) = (t.find k).toList := by
  obtain ⟨rows, unique⟩ := t
  unfold find
  induction rows with
  | nil => rfl
  | cons v rows ih =>
    obtain ⟨hhead, htail⟩ := pairwise_cons.mp unique
    by_cases hk : key v = k
    · have hrest : (rows.filter fun w => key w = k) = [] := by
        refine filter_eq_nil_iff.mpr ?_
        intro w hw
        simpa [← hk] using (hhead w hw).symm
      simp [hk, hrest]
    · simpa [hk] using ih htail

def insert (t : Keyed V K key) (v : V) (h : t.find (key v) = none) : Keyed V K key where
  rows := t.rows ++ [v]
  unique := by
    refine List.pairwise_append.mpr ⟨t.unique, List.pairwise_singleton _ v, ?_⟩
    intro w hw v' hv'
    rw [List.mem_singleton.mp hv']
    exact find_eq_none.mp h w hw

theorem rows_insert {h : t.find (key v) = none} : (t.insert v h).rows = t.rows ++ [v] := rfl

theorem mem_insert {h : t.find (key v) = none} : w ∈ (t.insert v h).rows ↔ w = v ∨ w ∈ t.rows := by
  simp [rows_insert, or_comm]

/-- A plain `INSERT`, which a taken key makes fail. -/
def tryInsert (t : Keyed V K key) (v : V) : Option (Keyed V K key) :=
  if h : t.find (key v) = none then some (t.insert v h) else none

/-- `INSERT … ON CONFLICT DO NOTHING`. -/
def insertNew (t : Keyed V K key) (v : V) : Keyed V K key :=
  if h : t.find (key v) = none then t.insert v h else t

theorem find_alter {f : V → Option V} {hf : ∀ v w, f v = some w → key w = key v} :
    (t.alter f hf).find k = (t.find k).bind f := by
  ext w
  rw [find_eq_some, mem_alter]
  simp only [Option.bind_eq_some_iff, find_eq_some]
  constructor
  · rintro ⟨⟨v, hv, hw⟩, hk⟩
    exact ⟨v, ⟨hv, (hf v w hw).symm.trans hk⟩, hw⟩
  · rintro ⟨v, ⟨hv, hk⟩, hw⟩
    exact ⟨⟨v, hv, hw⟩, (hf v w hw).trans hk⟩

theorem find_update {p : V → Bool} {f : V → V} {hf : ∀ v, key (f v) = key v} :
    (t.update p f hf).find k = (t.find k).map fun v => if p v then f v else v := by
  rw [update, find_alter]
  cases t.find k <;> rfl

theorem find_delete {p : V → Bool} : (t.delete p).find k = (t.find k).filter fun v => !p v := by
  rw [delete, find_alter]
  cases t.find k with
  | none => rfl
  | some v => cases hp : p v <;> simp [hp, Option.filter]

theorem find_insert {h : t.find (key v) = none} :
    (t.insert v h).find k = if k = key v then some v else t.find k := by
  ext w
  rw [find_eq_some]
  split
  · next hk =>
    subst hk
    simp only [insert, mem_append, mem_singleton, Option.some.injEq]
    constructor
    · rintro ⟨hw | rfl, hkey⟩
      · exact absurd hkey (find_eq_none.mp h w hw)
      · rfl
    · rintro rfl
      exact ⟨.inr rfl, rfl⟩
  · next hk =>
    rw [find_eq_some]
    simp only [insert, mem_append, mem_singleton]
    constructor
    · rintro ⟨hw | rfl, hkey⟩
      · exact ⟨hw, hkey⟩
      · exact absurd hkey.symm hk
    · rintro ⟨hw, hkey⟩
      exact ⟨.inl hw, hkey⟩

theorem tryInsert_eq_some {t' : Keyed V K key} :
    t.tryInsert v = some t' ↔ ∃ h : t.find (key v) = none, t.insert v h = t' := by
  unfold tryInsert
  split
  · next h => simp [h]
  · next h => simp [h]

theorem rows_insertNew :
    (t.insertNew v).rows = t.rows ++ if t.find (key v) = none then [v] else [] := by
  unfold insertNew
  split
  · exact rows_insert
  · exact (append_nil _).symm

theorem mem_insertNew (h : w ∈ (t.insertNew v).rows) : w = v ∨ w ∈ t.rows := by
  unfold insertNew at h
  split at h
  · exact mem_insert.mp h
  · exact .inr h

theorem find_insertNew : (t.insertNew v).find k =
    if k = key v ∧ t.find k = none then some v else t.find k := by
  unfold insertNew
  split
  · next h =>
    rw [find_insert]
    split
    · next hk => rw [if_pos ⟨hk, hk ▸ h⟩]
    · next hk => rw [if_neg (fun hc => hk hc.1)]
  · next h =>
    rw [if_neg]
    rintro ⟨rfl, hk⟩
    exact h hk

/-- Inserts rows, those under free keys. -/
def insertAll (t : Keyed V K key) (l : List V) : Keyed V K key :=
  l.foldl insertNew t

theorem find_insertAll {l : List V} :
    (t.insertAll l).find k = (t.find k).or (l.find? fun v => key v = k) := by
  unfold insertAll
  induction l generalizing t with
  | nil => simp
  | cons v l ih =>
    rw [foldl_cons, ih, find_insertNew]
    by_cases hk : k = key v
    · cases ht : t.find k with
      | none => simp [← hk]
      | some w => simp
    · simp [hk, Ne.symm hk]

end Keyed

end Voxhold.Lib
