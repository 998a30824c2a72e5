/-
# Voxhold.E2ee.Devices — the registry of device keys

`e2ee.Repository` over `e2ee_device_keys`: `Register` refreshes a device or enrols one after
revoking those used least recently; `Revoke` is one statement. What a call does is said once, by
lookups (`register_eq_ok`, `revoke_eq_ok`).
-/

import Mathlib.Data.List.Sort
import Mathlib.Data.Prod.Lex
import Mathlib.Data.String.Basic
import Voxhold.Lib.Keyed
import Voxhold.Lib.Trace

namespace Voxhold.E2ee

open Voxhold.Lib List Keyed

/-! ## Validation -/

/-- `^[0-9a-f]{32}$`. -/
def validDeviceID (id : String) : Bool :=
  id.length = 32 ∧ id.toList.all fun c => ('0' ≤ c ∧ c ≤ '9') ∨ ('a' ≤ c ∧ c ≤ 'f')

def p256Prime : ℕ := 2 ^ 256 - 2 ^ 224 + 2 ^ 192 + 2 ^ 96 - 1

/-- The constant of the P-256 equation `y² = x³ - 3x + b`. -/
def p256B : ℕ := 0x5ac635d8aa3a93e7b3ebbd55769886bc651d06b0cc53b0f63bce3c3e27d2604b

def bigEndian (bytes : List UInt8) : ℕ :=
  bytes.foldl (fun n b => n * 256 + b.toNat) 0

/-- `ecdh.P256().NewPublicKey` on an uncompressed encoding: reduced coordinates of a point on the
curve. -/
def onP256 (x y : ℕ) : Bool :=
  x < p256Prime ∧ y < p256Prime ∧
    y * y % p256Prime = (x * x * x + (p256Prime - 3) * x + p256B) % p256Prime

def validatePublicKey (raw : List UInt8) : Bool :=
  raw.length = 65 ∧ raw.head? = some 0x04 ∧
    onP256 (bigEndian ((raw.drop 1).take 32)) (bigEndian (raw.drop 33))

/-! ## The table -/

structure DeviceKey where
  userID : Int
  deviceID : String
  publicKey : List UInt8
  createdAt : Int
  revokedAt : Option Int
  lastUsedAt : Int
deriving DecidableEq

/-- `PRIMARY KEY(user_id, device_id)`. -/
def DeviceKey.key (r : DeviceKey) : Int × String := (r.userID, r.deviceID)

theorem DeviceKey.key_revokedAt (r : DeviceKey) (revokedAt : Option Int) :
    DeviceKey.key { r with revokedAt := revokedAt } = r.key := rfl

theorem DeviceKey.key_lastUsedAt (r : DeviceKey) (now : Int) :
    DeviceKey.key { r with lastUsedAt := now } = r.key := rfl

/-- `max(last_used_at, created_at), device_id`, the order in which devices are evicted. -/
def DeviceKey.rank (r : DeviceKey) : Int ×ₗ String :=
  toLex (max r.lastUsedAt r.createdAt, r.deviceID)

def DeviceKey.Before (r s : DeviceKey) : Prop := r.rank ≤ s.rank
deriving Decidable

instance : Std.Total DeviceKey.Before := ⟨fun r s => le_total r.rank s.rank⟩

instance : IsTrans DeviceKey DeviceKey.Before :=
    ⟨fun _ _ _ h h' => le_trans (α := Int ×ₗ String) h h'⟩

abbrev DeviceKeys := Keyed DeviceKey (Int × String) DeviceKey.key

def maxActiveDevices : ℕ := 10

namespace DeviceKeys

def active (t : DeviceKeys) (userID : Int) : List DeviceKey :=
  t.rows.filter fun r => r.userID = userID ∧ r.revokedAt = none

def hasActive (t : DeviceKeys) (userID : Int) (deviceID : String) : Bool :=
  (t.find (userID, deviceID)).any fun r => r.revokedAt = none

def deviceActive (t : DeviceKeys) (userID : Int) (deviceID : String) : Bool :=
  validDeviceID deviceID && t.hasActive userID deviceID

/-- The first `n` active devices of a user in the order of eviction. -/
def leastUsed (t : DeviceKeys) (userID : Int) (n : ℕ) : List String :=
  (((t.active userID).insertionSort DeviceKey.Before).take n).map DeviceKey.deviceID

/-- `SET revoked_at=unixepoch() WHERE user_id=? AND device_id IN (…)`. -/
def revokeAll (t : DeviceKeys) (userID : Int) (deviceIDs : List String) (now : Int) : DeviceKeys :=
  t.update (fun r => r.userID = userID ∧ r.deviceID ∈ deviceIDs)
    (fun r => { r with revokedAt := some now }) (fun r => r.key_revokedAt (some now))

/-- `SET last_used_at=unixepoch()`. -/
def touch (t : DeviceKeys) (userID : Int) (deviceID : String) (now : Int) : DeviceKeys :=
  t.update (fun r => r.key = (userID, deviceID)) (fun r => { r with lastUsedAt := now })
    (fun r => r.key_lastUsedAt now)

end DeviceKeys

/-! ## The calls -/

inductive Statement where
  | beginWrite
  | read
  | touch
  | count
  | evict
  | insert
  | commit
  | revoke
deriving DecidableEq, Repr

inductive Error where
  | invalidDevice
  | invalidPublicKey
  | keyConflict
  | notFound
  | database (statement : Statement)
deriving DecidableEq, Repr

/-- What the database does with the statements of a call: the time at which each one runs, none if
it fails. -/
abbrev Outcome := Statement → Option Int

def Outcome.run (o : Outcome) (s : Statement) : Except Error Int :=
  match o s with
  | some now => .ok now
  | none => .error (.database s)

/-- The branch of `Register` for a device that has a row. A revoked device id is never reused. -/
def registerKnown (o : Outcome) (t : DeviceKeys) (row : DeviceKey) (publicKey : List UInt8) :
    Except Error DeviceKeys :=
  if row.revokedAt.isSome then .error .keyConflict
  else if row.publicKey = publicKey then do
    let now ← o.run .touch
    let _ ← o.run .commit
    return t.touch row.userID row.deviceID now
  else .error .keyConflict

/-- A user at the limit loses the devices used least recently. -/
def makeRoom (o : Outcome) (t : DeviceKeys) (userID : Int) : Except Error DeviceKeys :=
  let active := (t.active userID).length
  if maxActiveDevices ≤ active then do
    let now ← o.run .evict
    return t.revokeAll userID (t.leastUsed userID (active - maxActiveDevices + 1)) now
  else .ok t

/-- The branch of `Register` for a device without a row. -/
def registerNew (o : Outcome) (t : DeviceKeys) (userID : Int) (deviceID : String)
    (publicKey : List UInt8) : Except Error DeviceKeys := do
  let _ ← o.run .count
  let t' ← makeRoom o t userID
  let now ← o.run .insert
  match t'.tryInsert ⟨userID, deviceID, publicKey, now, none, now⟩ with
  | none => .error (.database .insert)
  | some t'' =>
    let _ ← o.run .commit
    return t''

def register (o : Outcome) (t : DeviceKeys) (userID : Int) (deviceID : String)
    (publicKey : List UInt8) : Except Error DeviceKeys :=
  if !validDeviceID deviceID then .error .invalidDevice
  else if !validatePublicKey publicKey then .error .invalidPublicKey
  else do
    let _ ← o.run .beginWrite
    let _ ← o.run .read
    match t.find (userID, deviceID) with
    | some row => registerKnown o t row publicKey
    | none => registerNew o t userID deviceID publicKey

/-- `Revoke`. The statement changes the one row if it is active, and the number of changed rows
tells whether it was. -/
def revoke (o : Outcome) (t : DeviceKeys) (userID : Int) (deviceID : String) :
    Except Error DeviceKeys :=
  if !validDeviceID deviceID then .error .invalidDevice
  else do
    let now ← o.run .revoke
    if t.hasActive userID deviceID then return t.revokeAll userID [deviceID] now
    else .error .notFound

inductive Call where
  | register (userID : Int) (deviceID : String) (publicKey : List UInt8)
  | revoke (userID : Int) (deviceID : String)
deriving DecidableEq

def Call.userID : Call → Int
  | .register u _ _ | .revoke u _ => u

def Call.exec (o : Outcome) (t : DeviceKeys) : Call → Except Error DeviceKeys
  | .register u d k => E2ee.register o t u d k
  | .revoke u d => E2ee.revoke o t u d

/-- The table after a call: a call that fails is rolled back. -/
def Call.apply (t : DeviceKeys) (call : Call × Outcome) : DeviceKeys :=
  match call.1.exec call.2 t with
  | .ok t' => t'
  | .error _ => t

/-! ## What the statements do -/

namespace DeviceKeys

variable {t : DeviceKeys} {userID u : Int} {deviceID e : String} {deviceIDs : List String}
  {now : Int} {r : DeviceKey}

theorem columns_of_find (h : t.find (u, e) = some r) : r.userID = u ∧ r.deviceID = e :=
  Prod.mk.inj (key_of_find h : r.key = (u, e))

theorem hasActive_iff : t.hasActive u e ↔ ∃ r, t.find (u, e) = some r ∧ r.revokedAt = none := by
  simp [hasActive, Option.any_eq_true]

theorem find_revokeAll :
    (t.revokeAll userID deviceIDs now).find (u, e) = (t.find (u, e)).map fun r =>
    if u = userID ∧ e ∈ deviceIDs then { r with revokedAt := some now } else r := by
  rw [revokeAll, find_update]
  cases hrow : t.find (u, e) with
  | none => rfl
  | some r =>
    obtain ⟨rfl, rfl⟩ := columns_of_find hrow
    simp

theorem find_touch : (t.touch userID deviceID now).find (u, e) = (t.find (u, e)).map fun r =>
    if u = userID ∧ e = deviceID then { r with lastUsedAt := now } else r := by
  rw [touch, find_update]
  cases hrow : t.find (u, e) with
  | none => rfl
  | some r =>
    obtain ⟨rfl, rfl⟩ := columns_of_find hrow
    simp [DeviceKey.key]

theorem hasActive_revokeAll : (t.revokeAll userID deviceIDs now).hasActive u e ↔
    t.hasActive u e ∧ ¬(u = userID ∧ e ∈ deviceIDs) := by
  rw [hasActive, hasActive, find_revokeAll]
  cases t.find (u, e) with
  | none => simp
  | some r =>
    by_cases hrevoked : u = userID ∧ e ∈ deviceIDs
    · simp [hrevoked]
    · simp [hrevoked]

theorem hasActive_touch : (t.touch userID deviceID now).hasActive u e ↔ t.hasActive u e := by
  rw [hasActive, hasActive, find_touch]
  cases t.find (u, e) with
  | none => simp
  | some r =>
    by_cases htouched : u = userID ∧ e = deviceID
    · simp [htouched]
    · simp [htouched]

theorem mem_active : r ∈ t.active u ↔ r ∈ t.rows ∧ r.userID = u ∧ r.revokedAt = none := by
  simp [active]

theorem hasActive_of_mem (h : r ∈ t.active u) : t.hasActive u r.deviceID := by
  obtain ⟨hr, rfl, hactive⟩ := mem_active.mp h
  exact hasActive_iff.mpr ⟨r, mem_rows.mp hr, hactive⟩

/-! ### The number of active devices -/

theorem length_active_revokeAll_le : ((t.revokeAll userID deviceIDs now).active u).length ≤
      ((t.active u).filter fun r => ¬(u = userID ∧ r.deviceID ∈ deviceIDs)).length := by
  rw [active, revokeAll, rows_update, filter_map, length_map, active, filter_filter]
  refine (monotone_filter_right _ ?_).length_le
  intro r
  by_cases hrevoked : r.userID = userID ∧ r.deviceID ∈ deviceIDs
  · simp [hrevoked]
  · simp only [Function.comp_apply, hrevoked]
    simp
    grind

theorem length_active_touch :
    ((t.touch userID deviceID now).active u).length = (t.active u).length := by
  rw [active, touch, rows_update, filter_map, length_map, active]
  refine congrArg List.length (filter_congr fun r _ => ?_)
  simp only [Function.comp_apply]
  split <;> rfl

theorem length_active_insert_le {h : t.find r.key = none} :
    (active (t.insert r h) u).length ≤ (t.active u).length + if r.userID = u then 1 else 0 := by
  rw [active, rows_insert, filter_append, length_append, active]
  refine Nat.add_le_add_left ?_ _
  split
  · exact (length_filter_le _ _)
  · next hne => simp [hne]

end DeviceKeys

/-! ## What the calls do -/

section Calls

open DeviceKeys

variable {o : Outcome} {t t' t₁ : DeviceKeys} {userID u : Int} {deviceID e : String}
  {publicKey : List UInt8}
  {call : Call}

/-- The devices that lose their place when the user registers a new one. -/
def evicted (t : DeviceKeys) (userID : Int) : List String :=
  if maxActiveDevices ≤ (t.active userID).length then
    t.leastUsed userID ((t.active userID).length - maxActiveDevices + 1)
  else []

theorem revokeAll_nil (now : Int) : t.revokeAll userID [] now = t := by
  obtain ⟨rows, unique⟩ := t
  simp [revokeAll, Keyed.update, Keyed.alter]

theorem makeRoom_eq_ok (h : makeRoom o t userID = .ok t') :
    ∃ now, t' = t.revokeAll userID (evicted t userID) now := by
  unfold makeRoom at h
  dsimp only at h
  split at h
  · next hfull =>
    obtain ⟨now, -, hnow⟩ := bind_eq_ok.mp h
    refine ⟨now, ?_⟩
    rw [evicted, if_pos hfull]
    exact (Except.ok.inj hnow).symm
  · next hroom =>
    refine ⟨0, ?_⟩
    rw [evicted, if_neg hroom, revokeAll_nil]
    exact (Except.ok.inj h).symm

theorem register_eq_ok (h : register o t userID deviceID publicKey = .ok t') :
    (∃ row now, t.find (userID, deviceID) = some row ∧ row.revokedAt = none ∧
      row.publicKey = publicKey ∧ t' = t.touch userID deviceID now) ∨
    (t.find (userID, deviceID) = none ∧ ∃ t₁ revokedAt now,
      t₁ = t.revokeAll userID (evicted t userID) revokedAt ∧
      ∃ hfree, t' = t₁.insert ⟨userID, deviceID, publicKey, now, none, now⟩ hfree) := by
  unfold register at h
  split at h
  · cases h
  split at h
  · cases h
  obtain ⟨-, -, h⟩ := bind_eq_ok.mp h
  obtain ⟨-, -, h⟩ := bind_eq_ok.mp h
  split at h
  · next row hrow =>
    refine .inl ?_
    unfold registerKnown at h
    split at h
    · cases h
    · next hactive =>
      split at h
      · next hkey =>
        obtain ⟨now, -, h⟩ := bind_eq_ok.mp h
        obtain ⟨-, -, h⟩ := bind_eq_ok.mp h
        have htouched := Except.ok.inj h
        obtain ⟨hu, hd⟩ := columns_of_find hrow
        rw [hu, hd] at htouched
        exact ⟨row, now, hrow, by simpa using hactive, hkey, htouched.symm⟩
      · cases h
  · next hnone =>
    refine .inr ⟨hnone, ?_⟩
    obtain ⟨-, -, h⟩ := bind_eq_ok.mp h
    obtain ⟨t₁, hroom, h⟩ := bind_eq_ok.mp h
    obtain ⟨now, -, h⟩ := bind_eq_ok.mp h
    obtain ⟨revokedAt, ht₁⟩ := makeRoom_eq_ok hroom
    refine ⟨t₁, revokedAt, now, ht₁, ?_⟩
    split at h
    · cases h
    · next t₂ hinsert =>
      obtain ⟨-, -, h⟩ := bind_eq_ok.mp h
      obtain ⟨hfree, rfl⟩ := tryInsert_eq_some.mp hinsert
      exact ⟨hfree, (Except.ok.inj h).symm⟩

theorem revoke_eq_ok (h : revoke o t userID deviceID = .ok t') :
    t.hasActive userID deviceID ∧ ∃ now, t' = t.revokeAll userID [deviceID] now := by
  unfold revoke at h
  split at h
  · cases h
  obtain ⟨now, -, h⟩ := bind_eq_ok.mp h
  split at h
  · next hactive => exact ⟨hactive, now, (Except.ok.inj h).symm⟩
  · cases h

/-! ## Evictions -/

theorem mem_evicted (h : e ∈ evicted t u) : t.hasActive u e := by
  unfold evicted at h
  split at h
  · obtain ⟨r, hr, rfl⟩ := mem_map.mp h
    exact hasActive_of_mem ((mem_insertionSort _).mp (mem_of_mem_take hr))
  · cases h

theorem length_evicted_le (h : (t.active u).length ≤ maxActiveDevices) :
    (evicted t u).length ≤ 1 := by
  unfold evicted
  split
  · next hfull =>
    rw [leastUsed, length_map]
    refine (length_take_le _ _).trans ?_
    omega
  · exact Nat.zero_le 1

theorem rank_evicted_le (h : (t.active u).length ≤ maxActiveDevices) (he : e ∈ evicted t u)
    {r s : DeviceKey} (hr : t.find (u, e) = some r) (hs : s ∈ t.active u) : r.rank ≤ s.rank := by
  unfold evicted at he
  split at he
  · next hfull =>
    have hone : (t.active u).length - maxActiveDevices + 1 = 1 := by omega
    rw [hone, leastUsed] at he
    have hsorted := pairwise_insertionSort DeviceKey.Before (t.active u)
    have hs' := (mem_insertionSort DeviceKey.Before).mpr hs
    have hmem : ∀ r' ∈ (t.active u).insertionSort DeviceKey.Before, t.find
      (u, r'.deviceID) = some r' := by
      intro r' hr'
      obtain ⟨hrow, rfl, -⟩ := mem_active.mp ((mem_insertionSort _).mp hr')
      exact mem_rows.mp hrow
    -- the victim is the head of the sorted list
    cases hlist : (t.active u).insertionSort DeviceKey.Before with
    | nil => simp [hlist] at he
    | cons first rest =>
      rw [hlist] at he hs' hsorted hmem
      obtain rfl : first.deviceID = e := by simpa [eq_comm] using he
      obtain rfl : first = r := Option.some.inj ((hmem first mem_cons_self).symm.trans hr)
      rcases mem_cons.mp hs' with rfl | hrest
      · exact le_rfl
      · exact rel_of_pairwise_cons hsorted hrest
  · cases he

theorem length_active_makeRoom_lt (now : Int) :
    ((t.revokeAll u (evicted t u) now).active u).length < maxActiveDevices := by
  unfold evicted
  split
  · next hfull =>
    refine length_active_revokeAll_le.trans_lt ?_
    generalize hn : (t.active u).length - maxActiveDevices + 1 = n
    -- none of the first `n` devices of the sorted list stays
    rw [← ((perm_insertionSort DeviceKey.Before (t.active u)).filter _).length_eq]
    rw [← take_append_drop n ((t.active u).insertionSort DeviceKey.Before), filter_append,
      length_append]
    have hgone : (((t.active u).insertionSort DeviceKey.Before).take n).filter
        (fun r => ¬(u = u ∧ r.deviceID ∈ t.leastUsed u n)) = [] := by
      refine filter_eq_nil_iff.mpr fun r hr => ?_
      have hvictim : r.deviceID ∈ t.leastUsed u n := mem_map.mpr ⟨r, hr, rfl⟩
      simp [hvictim]
    have hrest := length_filter_le (fun r => decide ¬(u = u ∧ r.deviceID ∈ t.leastUsed u n))
      (((t.active u).insertionSort DeviceKey.Before).drop n)
    rw [length_drop, length_insertionSort] at hrest
    rw [hgone, length_nil, Nat.zero_add]
    have hpos : 0 < maxActiveDevices := by decide
    omega
  · next hroom =>
    rw [revokeAll_nil]
    exact Nat.lt_of_not_le hroom

/-! ## What every call keeps -/

/-- No user has more active devices than the limit. -/
def WithinLimit (t : DeviceKeys) : Prop :=
  ∀ u, (t.active u).length ≤ maxActiveDevices

/-- Rows stay, with their keys; a revoked row stays revoked. -/
def Extends (t t' : DeviceKeys) : Prop :=
  ∀ u e r, t.find (u, e) = some r → ∃ r', t'.find (u, e) = some r' ∧ r'.publicKey = r.publicKey ∧
    (r.revokedAt.isSome → r'.revokedAt.isSome)

theorem Extends.refl (t : DeviceKeys) : Extends t t :=
  fun _ _ r hr => ⟨r, hr, rfl, id⟩

theorem Extends.trans {t₂ : DeviceKeys} (h : Extends t t₁) (h' : Extends t₁ t₂) : Extends t t₂ := by
  intro u e r hr
  obtain ⟨r₁, hr₁, hkey₁, hrevoked₁⟩ := h u e r hr
  obtain ⟨r₂, hr₂, hkey₂, hrevoked₂⟩ := h' u e r₁ hr₁
  exact ⟨r₂, hr₂, hkey₂.trans hkey₁, fun hr => hrevoked₂ (hrevoked₁ hr)⟩

theorem extends_revokeAll (deviceIDs : List String) (now : Int) :
    Extends t (t.revokeAll userID deviceIDs now) := by
  intro u e r hr
  rw [find_revokeAll, hr]
  refine ⟨_, rfl, ?_⟩
  split
  · exact ⟨rfl, fun _ => rfl⟩
  · exact ⟨rfl, id⟩

theorem extends_touch (now : Int) : Extends t (t.touch userID deviceID now) := by
  intro u e r hr
  rw [find_touch, hr]
  refine ⟨_, rfl, ?_⟩
  split
  · exact ⟨rfl, id⟩
  · exact ⟨rfl, id⟩

theorem extends_insert {row : DeviceKey} (hfree : t.find row.key = none) :
    Extends t (t.insert row hfree) := by
  intro u e r hr
  refine ⟨r, ?_, rfl, id⟩
  rw [find_insert, if_neg]
  · exact hr
  · rintro hkey
    rw [← hkey, hr] at hfree
    cases hfree

theorem exec_induction {P : DeviceKeys → DeviceKeys → Prop}
    (htrans : ∀ {t t₁ t₂}, P t t₁ → P t₁ t₂ → P t t₂)
    (htouch : ∀ t d now, P t (t.touch call.userID d now))
    (hrevoke : ∀ t ds now, P t (t.revokeAll call.userID ds now))
    (hinsert : ∀ t row hfree, row.userID = call.userID → P t (t.insert row hfree))
    (h : call.exec o t = .ok t') : P t t' := by
  cases call with
  | register u d k =>
    rcases register_eq_ok h with ⟨row, now, -, -, -, rfl⟩ | ⟨-, t₁, revokedAt, now, rfl, hfree, rfl⟩
    · exact htouch t d now
    · exact htrans (hrevoke t _ revokedAt) (hinsert _ _ hfree rfl)
  | revoke u d =>
    obtain ⟨-, now, rfl⟩ := revoke_eq_ok h
    exact hrevoke t [d] now

theorem extends_exec (h : call.exec o t = .ok t') : Extends t t' :=
  exec_induction Extends.trans (fun _ _ now => extends_touch now)
    (fun _ ds now => extends_revokeAll ds now) (fun _ _ hfree _ => extends_insert hfree) h

theorem find_exec_of_ne (h : call.exec o t = .ok t') (hu : u ≠ call.userID) :
    t'.find (u, e) = t.find (u, e) := by
  refine exec_induction (P := fun t t' : DeviceKeys => t'.find (u, e) = t.find (u, e)) ?_ ?_ ?_ ?_ h
  · exact fun h₁ h₂ => h₂.trans h₁
  · intro t d now
    rw [find_touch]
    simp [hu]
  · intro t ds now
    rw [find_revokeAll]
    simp [hu]
  · intro t row hfree hrow
    rw [find_insert, if_neg]
    intro hkey
    exact hu ((congrArg Prod.fst hkey).trans hrow)

theorem withinLimit_exec (hlimit : WithinLimit t) (h : call.exec o t = .ok t') :
    WithinLimit t' := by
  have hrevoke :
    ∀ u userID ds now, ((t.revokeAll userID ds now).active u).length ≤ maxActiveDevices :=
    fun u _ _ _ => (length_active_revokeAll_le.trans (length_filter_le _ _)).trans (hlimit u)
  intro u
  cases call with
  | register v d k =>
    rcases register_eq_ok h with ⟨row, now, -, -, -, rfl⟩ | ⟨-, t₁, revokedAt, now, rfl, hfree, rfl⟩
    · rw [length_active_touch]
      exact hlimit u
    · refine length_active_insert_le.trans ?_
      dsimp only
      split
      · next hv =>
        subst hv
        exact length_active_makeRoom_lt revokedAt
      · exact hrevoke u v _ revokedAt
  | revoke v d =>
    obtain ⟨-, now, rfl⟩ := revoke_eq_ok h
    exact hrevoke u v [d] now

/-! ## The registry -/

/-- What a successful registration leaves: the registered device with its key, and of the user's
other active devices all but at most one, the least in the order of eviction. -/
def Registered (t t' : DeviceKeys) (userID : Int) (deviceID : String) (publicKey : List UInt8) :
    Prop :=
  (∃ r, t'.find (userID, deviceID) = some r ∧ r.publicKey = publicKey) ∧
  ∃ gone : Option String,
    (∀ e, t'.hasActive userID e ↔ e = deviceID ∨ (t.hasActive userID e ∧ e ≠ deviceID ∧
      gone ≠ some e)) ∧
    ∀ e ∈ gone, e ≠ deviceID ∧ ∃ r, t.find (userID, e) = some r ∧ r.revokedAt = none ∧
      ∀ s ∈ t.active userID, s.deviceID ≠ deviceID → r.rank ≤ s.rank

/-- What a successful revocation leaves: the device was active, and the user's other active devices
are. -/
def Revoked (t t' : DeviceKeys) (userID : Int) (deviceID : String) : Prop :=
  t.hasActive userID deviceID ∧ ∀ e, t'.hasActive userID e ↔ t.hasActive userID e ∧ e ≠ deviceID

theorem revoked_of_ok (h : revoke o t userID deviceID = .ok t') : Revoked t t' userID deviceID := by
  obtain ⟨hactive, now, rfl⟩ := revoke_eq_ok h
  refine ⟨hactive, fun e => ?_⟩
  rw [hasActive_revokeAll]
  simp

theorem registered_of_ok (hlimit : WithinLimit t)
    (h : register o t userID deviceID publicKey = .ok t') :
    Registered t t' userID deviceID publicKey := by
  rcases register_eq_ok h with ⟨row, now, hrow, hactive, hkey, rfl⟩ |
    ⟨hnone, t₁, revokedAt, now, rfl, hfree, rfl⟩
  · -- a known device: nobody goes
    refine ⟨?_, none, fun e => ?_, by simp⟩
    · rw [find_touch, hrow]
      exact ⟨_, rfl, by simpa using hkey⟩
    · rw [hasActive_touch]
      have hself : t.hasActive userID deviceID := hasActive_iff.mpr ⟨row, hrow, hactive⟩
      by_cases he : e = deviceID
      · simp [he, hself]
      · simp [he]
  · -- a new device: the list of victims has at most one element
    refine ⟨⟨_, by rw [find_insert]; exact if_pos rfl, rfl⟩, (evicted t userID).head?, ?_, ?_⟩
    · intro e
      have hhead : (evicted t userID).head? ≠ some e ↔ e ∉ evicted t userID := by
        have hlen := length_evicted_le (hlimit userID)
        cases hlist : evicted t userID with
        | nil => simp
        | cons d rest =>
          obtain rfl : rest = [] := by simpa [hlist] using hlen
          simp [eq_comm]
      rw [hhead, hasActive, find_insert]
      by_cases he : e = deviceID
      · subst he
        simp [DeviceKey.key]
      · rw [if_neg (fun hk => he (congrArg Prod.snd hk)), ← hasActive, hasActive_revokeAll]
        simp [he]
    · intro e he
      have hmem := mem_of_mem_head? he
      obtain ⟨r, hr, hactive⟩ := hasActive_iff.mp (mem_evicted hmem)
      refine ⟨?_, r, hr, hactive, fun s hs _ => rank_evicted_le (hlimit userID) hmem hr hs⟩
      rintro rfl
      rw [hnone] at hr
      cases hr

theorem apply_eq (call : Call × Outcome) :
    (∃ t', call.1.exec call.2 t = .ok t' ∧ Call.apply t call = t') ∨
      ((∃ err, call.1.exec call.2 t = .error err) ∧ Call.apply t call = t) := by
  unfold Call.apply
  cases hexec : call.1.exec call.2 t with
  | ok t' => exact .inl ⟨t', rfl, rfl⟩
  | error err => exact .inr ⟨⟨err, rfl⟩, rfl⟩

theorem withinLimit_apply (call : Call × Outcome) (h : WithinLimit t) :
    WithinLimit (Call.apply t call) := by
  rcases apply_eq (t := t) call with ⟨t', hexec, happly⟩ | ⟨-, happly⟩
  · rw [happly]
    exact withinLimit_exec h hexec
  · rwa [happly]

theorem extends_apply (t : DeviceKeys) (call : Call × Outcome) : Extends t (Call.apply t call) := by
  rcases apply_eq (t := t) call with ⟨t', hexec, happly⟩ | ⟨-, happly⟩
  · rw [happly]
    exact extends_exec hexec
  · rw [happly]
    exact Extends.refl t

def run (calls : List (Call × Outcome)) : DeviceKeys :=
  calls.foldl Call.apply .empty

theorem withinLimit_run (calls : List (Call × Outcome)) : WithinLimit (run calls) :=
  foldl_preserves (fun _ call h => withinLimit_apply call h) (fun _ => Nat.zero_le _)

theorem extends_run (calls more : List (Call × Outcome)) :
    Extends (run calls) (run (calls ++ more)) := by
  rw [run, run, foldl_append]
  exact foldl_preserves (P := Extends (calls.foldl Call.apply .empty))
    (fun t call h => h.trans (extends_apply t call)) (Extends.refl _)

/-- **The device registry.** After any calls every user is within the limit; whatever calls follow,
a stored key stays and a revoked device stays revoked; and the next call, if it fails, changes
nothing, and otherwise changes rows of its user only, a registration as `Registered` and a
revocation as `Revoked` says. -/
theorem deviceRegistry (calls : List (Call × Outcome)) :
    (∀ u, ((run calls).active u).length ≤ maxActiveDevices) ∧
    (∀ more, Extends (run calls) (run (calls ++ more))) ∧ ∀ call o,
      (∀ err, call.exec o (run calls) = .error err → run (calls ++ [(call, o)]) = run calls) ∧
      (∀ u e, u ≠ call.userID → (run (calls ++ [(call, o)])).find (u, e) = (run calls).find
      (u, e)) ∧ ∀ t', call.exec o (run calls) = .ok t' → run (calls ++ [(call, o)]) = t' ∧
        (∀ userID deviceID publicKey, call = .register userID deviceID publicKey →
          Registered (run calls) t' userID deviceID publicKey) ∧
        ∀ userID deviceID, call = .revoke userID deviceID →
        Revoked (run calls) t' userID deviceID := by
  refine ⟨withinLimit_run calls, extends_run calls, fun call o => ?_⟩
  have hrun : run (calls ++ [(call, o)]) = Call.apply (run calls) (call, o) := by
    rw [run, run, foldl_append]
    rfl
  rw [hrun]
  rcases apply_eq (t := run calls) (call, o) with ⟨t', hexec, happly⟩ | ⟨⟨err, hexec⟩, happly⟩
  · dsimp only at hexec
    rw [happly, hexec]
    refine ⟨nofun, fun u e hu => find_exec_of_ne hexec hu, ?_⟩
    rintro _ ⟨⟩
    refine ⟨rfl, ?_, ?_⟩
    · rintro userID deviceID publicKey rfl
      exact registered_of_ok (withinLimit_run calls) hexec
    · rintro userID deviceID rfl
      exact revoked_of_ok hexec
  · dsimp only at hexec
    rw [happly, hexec]
    exact ⟨fun _ _ => rfl, fun _ _ _ => rfl, fun _ h => by cases h⟩

end Calls

end Voxhold.E2ee
