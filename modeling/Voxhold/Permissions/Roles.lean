/-
# Voxhold.Permissions.Roles — custom roles and what they permit

`server_roles`, `member_roles` and the view `member_permissions`, with the calls that change what it
says. An assignment refers to a role of its own server, so a call changes the permissions of one
server only (`allowed_of_perform`).
-/

import Mathlib.Algebra.Ring.Nat
import Mathlib.Data.Finset.Lattice.Fold
import Mathlib.Order.Lattice.Nat
import Voxhold.Account.Transactions

namespace Voxhold.Permissions

open Voxhold.Lib Voxhold.Account Option Finset

/-! ## The tables and the view -/

def voiceBit : ℕ := 4

def streamBit : ℕ := 8

structure ServerRole where
  serverID : ℕ
  name : String
  color : String
  permissions : ℕ
deriving DecidableEq

structure Assignment where
  serverID : ℕ
  userID : ℕ
  roleID : ℕ
deriving DecidableEq

structure Tables where
  db : Database
  roles : Table ServerRole
  assigned : Finset Assignment
  /-- `FOREIGN KEY(server_id,role_id) REFERENCES server_roles(server_id,id)`. -/
  refs : ∀ a ∈ assigned, ∃ r, roles.get a.roleID = some r ∧ r.serverID = a.serverID

namespace Tables

variable (t : Tables)

def rolesOf (serverID userID : ℕ) : Finset Assignment :=
  t.assigned.filter fun a => a.serverID = serverID ∧ a.userID = userID

/-- `max(r.permissions & bit)` over the member's roles. -/
def largest (serverID userID bit : ℕ) : ℕ :=
  (t.rolesOf serverID userID).sup fun a => (t.roles.get a.roleID).elim 0 fun r =>
    r.permissions &&& bit

/-- The permissions of a member that is not timed out. -/
def base (m : Member) : ℕ :=
  if m.role = .owner ∨ m.role = .admin then 31
  else if t.rolesOf m.serverID m.userID = ∅ then 15
  else ([1, 2, 4, 8, 16].map fun bit => t.largest m.serverID m.userID bit).sum

/-- The view `member_permissions`. A timed-out member keeps Read and ManageMessages. -/
def memberPermissions (now : Int) (serverID userID : ℕ) : Option ℕ :=
  (t.db.members.find (serverID, userID)).map fun m =>
    if m.timeoutUntil.any fun expiry => now < expiry then t.base m &&& 17 else t.base m

/-- The view for the ids the hub uses, which no row has if they are negative. -/
def permissions (now : Int) (serverID userID : Int) : Option ℕ :=
  if 0 ≤ serverID ∧ 0 ≤ userID then t.memberPermissions now serverID.toNat userID.toNat else none

def allowed (now : Int) (serverID userID : Int) (bit : ℕ) : Bool :=
  (t.permissions now serverID userID).any fun bits => bits &&& bit ≠ 0

end Tables

/-! ## The calls -/

inductive Error where
  | invalid
  | conflict
  | forbidden
  | noRows
  | member (e : Account.Error)
deriving DecidableEq

/-- What `saveRole` decodes, the name after `strings.TrimSpace`. -/
structure RoleInput where
  name : String
  color : String
  permissions : Int
deriving DecidableEq

/-- `^#[0-9a-fA-F]{6}$`. -/
def validColor (color : String) : Bool :=
  match color.toList with
  | '#' :: digits => digits.length = 6 ∧ digits.all fun c =>
      ('0' ≤ c ∧ c ≤ '9') ∨ ('a' ≤ c ∧ c ≤ 'f') ∨ ('A' ≤ c ∧ c ≤ 'F')
  | _ => false

def RoleInput.Valid (input : RoleInput) : Prop :=
  input.name ≠ "" ∧ input.name.length ≤ 64 ∧ 0 ≤ input.permissions ∧ input.permissions ≤ 31 ∧
    validColor input.color
deriving Decidable

def RoleInput.role (input : RoleInput) (serverID : ℕ) : ServerRole :=
  ⟨serverID, input.name, input.color, input.permissions.toNat⟩

namespace Tables

variable (t : Tables)

def owner (serverID userID : ℕ) : Except Error Unit :=
  require (t.db.roleOf serverID userID = some .owner) .forbidden

def insertRole (r : ServerRole) : Tables where
  __ := t
  roles := t.roles.insert r
  refs a ha := by
    obtain ⟨old, hold, hserver⟩ := t.refs a ha
    refine ⟨old, ?_, hserver⟩
    rw [Table.get_insert_of_ne _ (Table.has_of_get hold).ne_next]
    exact hold

def updateRole (id : ℕ) (r : ServerRole) : Tables where
  __ := t
  roles := t.roles.alter fun k old => some (if k = id ∧ old.serverID = r.serverID then r else old)
  refs a ha := by
    obtain ⟨old, hold, hserver⟩ := t.refs a ha
    refine ⟨_, by rw [Table.get_alter, hold]; rfl, ?_⟩
    split
    · next heq => exact heq.2.symm.trans hserver
    · exact hserver

/-- `DELETE FROM server_roles WHERE id=? AND server_id=?`, with the assignments that go with it. -/
def deleteRoleRow (serverID id : ℕ) : Tables where
  db := t.db
  roles := t.roles.alter fun k old => if k = id ∧ old.serverID = serverID then none else some old
  assigned := t.assigned.filter fun a => ¬(a.roleID = id ∧ a.serverID = serverID)
  refs a ha := by
    obtain ⟨ha, hkept⟩ := mem_filter.mp ha
    obtain ⟨old, hold, hserver⟩ := t.refs a ha
    refine ⟨old, ?_, hserver⟩
    rw [Table.get_alter, hold, bind_some, if_neg]
    rwa [hserver]

def HasRole (serverID id : ℕ) : Prop :=
  (t.roles.get id).any fun r => r.serverID = serverID
deriving Decidable

/-- The member's rows of `member_roles` are replaced by these. -/
def replaceRoles (serverID userID : ℕ) (ids : List ℕ) (hids : ∀ id ∈ ids, t.HasRole serverID id) :
    Tables where
  __ := t
  assigned := (t.assigned.filter fun a => ¬(a.serverID = serverID ∧ a.userID = userID)) ∪
    (ids.map fun id => ⟨serverID, userID, id⟩).toFinset
  refs a ha := by
    rcases mem_union.mp ha with ha | ha
    · exact t.refs a (mem_filter.mp ha).1
    · obtain ⟨id, hid, rfl⟩ := List.mem_map.mp (List.mem_toFinset.mp ha)
      obtain ⟨r, hr, hserver⟩ := (any_eq_true _ _).mp (hids id hid)
      exact ⟨r, hr, of_decide_eq_true hserver⟩

def withDatabase (db : Database) : Tables :=
  { t with db := db }

/-- `saveRole`; the id 0 creates a role. -/
def saveRole (serverID userID id : ℕ) (input : RoleInput) : Except Error Tables := do
  require input.Valid .invalid
  t.owner serverID userID
  let ofServer := t.roles.toList.filter fun r => r.2.serverID = serverID
  require (id ≠ 0 ∨ ofServer.length < 100) .invalid
  require (∀ r ∈ ofServer, r.2.name = input.name → r.1 = id) .conflict
  if id = 0 then return t.insertRole (input.role serverID)
  else do
    require (t.HasRole serverID id) .noRows
    return t.updateRole id (input.role serverID)

/-- `deleteRole`. Without such a role nothing is done, and nobody is told. -/
def deleteRole (serverID userID id : ℕ) : Except Error (Option Tables) := do
  t.owner serverID userID
  if t.HasRole serverID id then return some (t.deleteRoleRow serverID id)
  else return none

def assignRoles (serverID userID target : ℕ) (ids : List ℕ) : Except Error Tables := do
  require (ids.length ≤ 100) .invalid
  t.owner serverID userID
  let role ← found (t.db.roleOf serverID target) .noRows
  require (role ≠ .owner) .forbidden
  require (ids.Nodup ∧ ∀ id ∈ ids, 0 < id) .invalid
  if hids : ∀ id ∈ ids, t.HasRole serverID id then return t.replaceRoles serverID target ids hids
  else .error .invalid

def setMemberTimeout (serverID userID target : ℕ) (expiry : Option Int) (now : Int) :
    Except Error Tables :=
  match t.db.setMemberTimeout serverID userID target expiry now with
  | .ok db => .ok (t.withDatabase db)
  | .error e => .error (.member e)

end Tables

inductive Change where
  | saveRole (serverID userID id : ℕ) (input : RoleInput)
  | deleteRole (serverID userID id : ℕ)
  | assignRoles (serverID userID target : ℕ) (ids : List ℕ)
  | setMemberTimeout (serverID userID target : ℕ) (expiry : Option Int)
deriving DecidableEq

def Change.serverID : Change → ℕ
  | .saveRole s _ _ _ | .deleteRole s _ _ | .assignRoles s _ _ _ | .setMemberTimeout s _ _ _ => s

/-- The call, up to its commit; without new tables there is nothing to refresh. -/
def Change.perform (now : Int) (t : Tables) : Change → Except Error (Option Tables)
  | .saveRole s u id input => (t.saveRole s u id input).map some
  | .deleteRole s u id => t.deleteRole s u id
  | .assignRoles s u target ids => (t.assignRoles s u target ids).map some
  | .setMemberTimeout s u target expiry => (t.setMemberTimeout s u target expiry now).map some

/-! ## What a call changes -/

namespace Tables

variable {t t' : Tables} {now : Int} {s s' u id : ℕ}

/-- The parts of the tables that the permissions in a server are made of. -/
structure SameIn (t t' : Tables) (s : ℕ) : Prop where
  member : ∀ u, t'.db.members.find (s, u) = t.db.members.find (s, u)
  assigned : ∀ u, t'.rolesOf s u = t.rolesOf s u
  role : ∀ a ∈ t.assigned, a.serverID = s → t'.roles.get a.roleID = t.roles.get a.roleID

theorem SameIn.largest (h : SameIn t t' s) (u bit : ℕ) :
    t'.largest s u bit = t.largest s u bit := by
  unfold Tables.largest
  rw [h.assigned u]
  refine sup_congr rfl fun a ha => ?_
  obtain ⟨ha, hserver, -⟩ := mem_filter.mp ha
  rw [h.role a ha hserver]

theorem SameIn.memberPermissions (h : SameIn t t' s) (now : Int) (u : ℕ) :
    t'.memberPermissions now s u = t.memberPermissions now s u := by
  unfold Tables.memberPermissions
  rw [h.member u]
  cases hm : t.db.members.find (s, u) with
  | none => rfl
  | some m =>
    obtain ⟨rfl, rfl⟩ := Prod.mk.inj (Keyed.key_of_find hm : m.key = (s, u))
    simp only [map_some, base, h.assigned, h.largest]

theorem sameIn_insertRole (r : ServerRole) : SameIn t (t.insertRole r) s where
  member := fun _ => rfl
  assigned := fun _ => rfl
  role a ha _ := by
    obtain ⟨old, hold, -⟩ := t.refs a ha
    exact Table.get_insert_of_ne _ (Table.has_of_get hold).ne_next

theorem sameIn_updateRole {r : ServerRole} (hs : s ≠ r.serverID) :
    SameIn t (t.updateRole id r) s where
  member := fun _ => rfl
  assigned := fun _ => rfl
  role a ha hserver := by
    obtain ⟨old, hold, hold'⟩ := t.refs a ha
    show (t.roles.alter _).get a.roleID = _
    rw [Table.get_alter, hold, bind_some, if_neg]
    rintro ⟨-, heq⟩
    exact hs (hserver.symm.trans (hold'.symm.trans heq))

theorem sameIn_deleteRoleRow (hs : s ≠ s') : SameIn t (t.deleteRoleRow s' id) s where
  member := fun _ => rfl
  assigned u := by
    show (t.assigned.filter _).filter _ = _
    rw [Finset.filter_filter]
    refine Finset.filter_congr fun a _ => ?_
    constructor
    · exact fun h => h.2
    · exact fun h => ⟨fun hgone => hs (h.1.symm.trans hgone.2), h⟩
  role a ha hserver := by
    obtain ⟨old, hold, hold'⟩ := t.refs a ha
    show (t.roles.alter _).get a.roleID = _
    rw [Table.get_alter, hold, bind_some, if_neg]
    rintro ⟨-, heq⟩
    exact hs (hserver.symm.trans (hold'.symm.trans heq))

theorem sameIn_replaceRoles {ids : List ℕ} {hids : ∀ id ∈ ids, t.HasRole s' id} (hs : s ≠ s') :
    SameIn t (t.replaceRoles s' u ids hids) s where
  member := fun _ => rfl
  assigned v := by
    ext a
    simp only [rolesOf, replaceRoles, mem_filter, mem_union, List.mem_toFinset,
      List.mem_map]
    constructor
    · rintro ⟨⟨ha, -⟩ | ⟨id, -, rfl⟩, hserver, huser⟩
      · exact ⟨ha, hserver, huser⟩
      · exact absurd hserver.symm hs
    · rintro ⟨ha, hserver, huser⟩
      exact ⟨.inl ⟨ha, fun h => hs (hserver.symm.trans h.1)⟩, hserver, huser⟩
  role := fun _ _ _ => rfl

theorem sameIn_setTimeout {expiry : Option Int} (hs : s ≠ s') :
    SameIn t (t.withDatabase (t.db.setTimeout s' u expiry)) s where
  member := fun _ => t.db.find_updateMember_of_ne fun heq => hs (Prod.mk.inj heq).1
  assigned := fun _ => rfl
  role := fun _ _ _ => rfl

theorem sameIn_of_perform {change : Change} (h : change.perform now t = .ok (some t'))
    (hs : s ≠ change.serverID) : SameIn t t' s := by
  cases change with
  | saveRole s' u id input =>
    obtain ⟨t₁, hsave, heq⟩ := map_eq_ok.mp h
    cases heq
    simp only [saveRole, owner, bind_eq_ok, require_eq_ok] at hsave
    obtain ⟨-, -, -, -, -, -, -, -, hsave⟩ := hsave
    split at hsave
    · cases hsave
      exact sameIn_insertRole _
    · obtain ⟨-, -, hsave⟩ := bind_eq_ok.mp hsave
      cases hsave
      exact sameIn_updateRole hs
  | deleteRole s' u id =>
    simp only [Change.perform, deleteRole, owner, bind_eq_ok, require_eq_ok] at h
    obtain ⟨-, -, hdelete⟩ := h
    split at hdelete
    · obtain rfl := some.inj (Except.ok.inj hdelete)
      exact sameIn_deleteRoleRow hs
    · cases hdelete
  | assignRoles s' u target ids =>
    obtain ⟨t₁, hassign, heq⟩ := map_eq_ok.mp h
    cases heq
    simp only [assignRoles, owner, bind_eq_ok, require_eq_ok] at hassign
    obtain ⟨-, -, -, -, role, -, -, -, -, -, hassign⟩ := hassign
    split at hassign
    · cases hassign
      exact sameIn_replaceRoles hs
    · cases hassign
  | setMemberTimeout s' u target expiry =>
    obtain ⟨t₁, htimeout, heq⟩ := map_eq_ok.mp h
    cases heq
    unfold setMemberTimeout at htimeout
    split at htimeout
    · next db hdb =>
      cases htimeout
      simp only [Database.setMemberTimeout, Database.requesterRole, Database.findMemberRole,
        bind_eq_ok, require_eq_ok, found_eq_ok] at hdb
      obtain ⟨-, -, -, -, -, -, ru, -, -, -, rt, -, -, -, -, -, hdb⟩ := hdb
      cases hdb
      exact sameIn_setTimeout hs
    · cases htimeout

theorem allowed_of_perform {change : Change} (h : change.perform now t = .ok (some t'))
    {server user : Int} (hs : server ≠ change.serverID) (later : Int) (bit : ℕ) :
    t'.allowed later server user bit = t.allowed later server user bit := by
  unfold allowed permissions
  split
  · next hpos =>
    have hne : server.toNat ≠ change.serverID := by omega
    rw [(sameIn_of_perform h hne).memberPermissions]
  · rfl

/-! ## The clock -/

theorem allowed_mono {later server user : Int} {bit : ℕ} (hlater : now ≤ later)
    (h : t.allowed now server user bit) : t.allowed later server user bit := by
  unfold allowed permissions at h ⊢
  split at h
  · next hpos =>
    rw [if_pos hpos]
    unfold memberPermissions at h ⊢
    cases hm : t.db.members.find (server.toNat, user.toNat) with
    | none => simp [hm] at h
    | some m =>
      rw [hm] at h
      simp only [map_some, any_some, decide_eq_true_eq] at h ⊢
      have hbase : t.base m &&& bit ≠ 0 := by
        split at h
        · intro hzero
          rw [Nat.and_assoc, Nat.and_comm 17, ← Nat.and_assoc, hzero, Nat.zero_and] at h
          exact h rfl
        · exact h
      split
      · next hout =>
        -- timed out later means timed out now
        obtain ⟨expiry, hexpiry, hlt⟩ := (any_eq_true _ _).mp hout
        have hnow : m.timeoutUntil.any fun expiry => decide (now < expiry) :=
          (any_eq_true _ _).mpr
            ⟨expiry, hexpiry, decide_eq_true (hlater.trans_lt (of_decide_eq_true hlt))⟩
        rwa [if_pos hnow] at h
      · exact hbase
  · cases h

end Tables

end Voxhold.Permissions
