/-
# Voxhold.Account.Database — accounts, sessions, memberships, bans and invitations

The tables that the account, server and invitation services write. Primary keys, FOREIGN KEYS and
the unique index on session tokens are part of their types. Accounts are never removed: deleting one
anonymises its row and sets `deleted_at`.
-/

import Mathlib.Tactic.Simps.Basic
import Voxhold.Lib.Keyed
import Voxhold.Lib.Table

namespace Voxhold.Account

open Voxhold.Lib Option Table

/-! ## Rows -/

inductive Role where
  | owner
  | admin
  | member
deriving DecidableEq, Repr

structure User where
  username : String
  usernameKey : Option String
  passwordHash : String
  deletedAt : Option Int
deriving DecidableEq

structure Session where
  userID : ℕ
  tokenHash : ℕ
  expiresAt : Int
deriving DecidableEq

structure Server where
  name : String
  createdBy : ℕ
deriving DecidableEq

structure Member where
  serverID : ℕ
  userID : ℕ
  role : Role
  timeoutUntil : Option Int
deriving DecidableEq

/-- `PRIMARY KEY (server_id, user_id)`. -/
def Member.key (m : Member) : ℕ × ℕ := (m.serverID, m.userID)

structure Ban where
  userID : ℕ
  bannedByUserID : ℕ
  reason : String
deriving DecidableEq

inductive InviteStatus where
  | pending
  | accepted
  | declined
  | canceled
  | expired
deriving DecidableEq, Repr

structure Invite where
  serverID : ℕ
  inviterUserID : ℕ
  inviteeUserID : ℕ
  status : InviteStatus
  expiresAt : Int
deriving DecidableEq

/-- An invitation link. `CHECK (max_uses IS NULL OR use_count <= max_uses)`. -/
structure Link where
  serverID : ℕ
  createdBy : ℕ
  tokenHash : ℕ
  expiresAt : Int
  maxUses : Option ℕ
  useCount : ℕ
  revokedAt : Option Int
  allowRegistration : Bool
  within : ∀ n ∈ maxUses, useCount ≤ n
deriving DecidableEq

/-- The link is neither revoked nor expired nor used up. -/
def Link.Usable (l : Link) (now : Int) : Prop :=
  l.revokedAt = none ∧ now < l.expiresAt ∧ ∀ n ∈ l.maxUses, l.useCount < n
deriving Decidable

/-- `SET use_count = use_count + 1`. -/
def Link.consume (l : Link) {now : Int} (h : l.Usable now) : Link :=
  { l with useCount := l.useCount + 1, within := fun n hn => h.2.2 n hn }

/-! ## The database -/

abbrev Members := Keyed Member (ℕ × ℕ) Member.key

abbrev Bans := Keyed Ban ℕ Ban.userID

structure ForeignKeys (users : Table User) (servers : Table Server) (sessions : Table Session)
    (members : Members) (bans : Bans) (invites : Table Invite) (links : Table Link) : Prop where
  server : ∀ {id s}, servers.get id = some s → users.Has s.createdBy
  session : ∀ {id s}, sessions.get id = some s → users.Has s.userID
  member : ∀ {m}, m ∈ members.rows → servers.Has m.serverID ∧ users.Has m.userID
  ban : ∀ {b}, b ∈ bans.rows → users.Has b.userID ∧ users.Has b.bannedByUserID
  invite : ∀ {id i}, invites.get id = some i →
    servers.Has i.serverID ∧ users.Has i.inviterUserID ∧ users.Has i.inviteeUserID
  link : ∀ {id l}, links.get id = some l → servers.Has l.serverID ∧ users.Has l.createdBy

/-- `token_hash BLOB NOT NULL UNIQUE`. -/
def UniqueTokens (sessions : Table Session) : Prop :=
  ∀ {i j s t}, sessions.get i = some s → sessions.get j = some t → s.tokenHash = t.tokenHash → i = j

structure Database where
  users : Table User
  servers : Table Server
  sessions : Table Session
  members : Members
  bans : Bans
  invites : Table Invite
  links : Table Link
  refs : ForeignKeys users servers sessions members bans invites links
  tokens : UniqueTokens sessions

namespace Database

def empty : Database where
  users := .empty
  servers := .empty
  sessions := .empty
  members := .empty
  bans := .empty
  invites := .empty
  links := .empty
  refs := ⟨nofun, nofun, nofun, nofun, nofun, nofun⟩
  tokens := nofun

/-! ### Replacing one table -/

variable (db : Database)

@[simps]
def setUsers (users : Table User) (h : ∀ id, db.users.Has id → users.Has id) : Database where
  users := users
  __ := db
  refs :=
    { server := fun hs => h _ (db.refs.server hs)
      session := fun hs => h _ (db.refs.session hs)
      member := fun hm => ⟨(db.refs.member hm).1, h _ (db.refs.member hm).2⟩
      ban := fun hb => ⟨h _ (db.refs.ban hb).1, h _ (db.refs.ban hb).2⟩
      invite :=
        fun hi => ⟨(db.refs.invite hi).1, h _ (db.refs.invite hi).2.1, h _ (db.refs.invite hi).2.2⟩
      link := fun hl => ⟨(db.refs.link hl).1, h _ (db.refs.link hl).2⟩ }

@[simps]
def setServers (servers : Table Server) (h : ∀ id, db.servers.Has id → servers.Has id)
    (hrefs : ∀ {id s}, servers.get id = some s → db.users.Has s.createdBy) : Database where
  __ := db
  servers := servers
  refs :=
    { db.refs with
      server := hrefs
      member := fun hm => ⟨h _ (db.refs.member hm).1, (db.refs.member hm).2⟩
      invite := fun hi => ⟨h _ (db.refs.invite hi).1, (db.refs.invite hi).2⟩
      link := fun hl => ⟨h _ (db.refs.link hl).1, (db.refs.link hl).2⟩ }

@[simps]
def setSessions (sessions : Table Session)
    (hrefs : ∀ {id s}, sessions.get id = some s → db.users.Has s.userID)
    (htokens : UniqueTokens sessions) : Database where
  __ := db
  sessions := sessions
  refs := { db.refs with session := hrefs }
  tokens := htokens

@[simps]
def setMembers (members : Members)
    (hrefs : ∀ {m}, m ∈ members.rows → db.servers.Has m.serverID ∧ db.users.Has m.userID) :
    Database where
  __ := db
  members := members
  refs := { db.refs with member := hrefs }

@[simps]
def setBans (bans : Bans)
    (hrefs : ∀ {b}, b ∈ bans.rows → db.users.Has b.userID ∧ db.users.Has b.bannedByUserID) :
    Database where
  __ := db
  bans := bans
  refs := { db.refs with ban := hrefs }

@[simps]
def setInvites (invites : Table Invite) (hrefs : ∀ {id i}, invites.get id = some i →
    db.servers.Has i.serverID ∧ db.users.Has i.inviterUserID ∧ db.users.Has i.inviteeUserID) :
    Database where
  __ := db
  invites := invites
  refs := { db.refs with invite := hrefs }

@[simps]
def setLinks (links : Table Link) (hrefs : ∀ {id l}, links.get id = some l →
    db.servers.Has l.serverID ∧ db.users.Has l.createdBy) : Database where
  __ := db
  links := links
  refs := { db.refs with link := hrefs }

/-! ### Statements -/

def insertUser (u : User) : Database :=
  db.setUsers (db.users.insert u) fun _ h => has_insert h

def updateUser (id : ℕ) (f : User → User) : Database :=
  db.setUsers (db.users.modify id f) fun _ h => has_modify h

def insertServer (s : Server) (h : db.users.Has s.createdBy) : Database :=
  db.setServers (db.servers.insert s) (fun _ h => has_insert h) (by
    intro id s' hs'
    rw [get_insert] at hs'
    split at hs'
    · exact some.inj hs' ▸ h
    · exact db.refs.server hs')

/-- `INSERT INTO sessions`, unless the token is taken or the account does not exist. -/
def insertSession (s : Session) : Option Database :=
  if h : db.users.Has s.userID ∧ ∀ r ∈ db.sessions.toList, r.2.tokenHash ≠ s.tokenHash then
    some (db.setSessions (db.sessions.insert s)
      (by
        intro id s' hs'
        rw [get_insert] at hs'
        split at hs'
        · exact some.inj hs' ▸ h.1
        · exact db.refs.session hs')
      (by
        have hfree : ∀ {i t}, db.sessions.get i = some t → t.tokenHash ≠ s.tokenHash :=
          fun ht => h.2 (_, _) (mem_toList.mpr ht)
        intro i j t t' hi hj heq
        rw [get_insert] at hi hj
        split at hi <;> split at hj
        · next hi' hj' => exact hi'.trans hj'.symm
        · exact absurd (some.inj hi ▸ heq.symm) (hfree hj)
        · exact absurd (some.inj hj ▸ heq) (hfree hi)
        · exact db.tokens hi hj heq))
  else none

/-- Sessions are changed or removed: each keeps its owner, and their tokens stay different. -/
def alterSessions (f : ℕ → Session → Option Session)
    (hf : ∀ {id s s'}, f id s = some s' → s'.userID = s.userID)
    (htokens : UniqueTokens (db.sessions.alter f)) : Database :=
  db.setSessions (db.sessions.alter f) (by
    intro id s' hs'
    obtain ⟨s, hs, hf'⟩ := bind_eq_some_iff.mp hs'
    rw [hf hf']
    exact db.refs.session hs) htokens

def deleteSessions (p : ℕ → Session → Bool) : Database :=
  db.alterSessions (fun id s => if p id s then none else some s)
    (by
      intro id s s' h
      split at h
      · cases h
      · exact congrArg Session.userID (some.inj h).symm)
    (by
      have hkept : ∀ {i s},
        (db.sessions.alter fun id s => if p id s then none else some s).get i = some s →
          db.sessions.get i = some s := by
        intro i s h
        obtain ⟨s', hs', hp⟩ := bind_eq_some_iff.mp h
        dsimp only at hp
        split at hp
        · cases hp
        · exact some.inj hp ▸ hs'
      intro i j s t hi hj heq
      exact db.tokens (hkept hi) (hkept hj) heq)

theorem get_deleteSessions {p : ℕ → Session → Bool} {id : ℕ} {s : Session} :
    (db.deleteSessions p).sessions.get id = some s ↔ db.sessions.get id = some s ∧
    p id s = false := by
  show ((db.sessions.get id).bind _) = some s ↔ _
  cases hs : db.sessions.get id with
  | none => simp
  | some s' =>
    rw [bind_some, some.injEq]
    constructor
    · intro h
      dsimp only at h
      split at h
      · cases h
      · next hp =>
        cases h
        exact ⟨rfl, by simpa using hp⟩
    · rintro ⟨rfl, hp⟩
      simp [hp]

/-- `INSERT INTO server_members … ON CONFLICT DO NOTHING`. -/
def insertMember (m : Member) : Option Database :=
  if h : db.servers.Has m.serverID ∧ db.users.Has m.userID then
    some (db.setMembers (db.members.insertNew m) (by
      intro m' hm'
      rcases Keyed.mem_insertNew hm' with rfl | hm'
      · exact h
      · exact db.refs.member hm'))
  else none

def updateMember (serverID userID : ℕ) (f : Member → Member) (hf : ∀ m, (f m).key = m.key) :
    Database :=
  db.setMembers (db.members.update (fun m => m.key = (serverID, userID)) f hf) (by
    intro m' hm'
    obtain ⟨m, hm, hkey⟩ := Keyed.exists_of_mem_update hm'
    obtain ⟨hs, hu⟩ := Prod.mk.inj hkey
    rw [hs, hu]
    exact db.refs.member hm)

theorem find_updateMember_of_ne {s u s' v : ℕ} {f : Member → Member} {hf : ∀ m, (f m).key = m.key}
    (hne : (s', v) ≠ (s, u)) :
    (db.updateMember s u f hf).members.find (s', v) = db.members.find (s', v) := by
  show (db.members.update _ f hf).find (s', v) = _
  rw [Keyed.find_update]
  cases hm : db.members.find (s', v) with
  | none => rfl
  | some m => simp [Keyed.key_of_find hm, show (s', v) ≠ (s, u) from hne]

def deleteMembers (p : Member → Bool) : Database :=
  db.setMembers (db.members.delete p) fun hm => db.refs.member (Keyed.mem_delete.mp hm).1

/-- `INSERT INTO user_bans`, with `CHECK (user_id <> banned_by_user_id)`. -/
def insertBan (b : Ban) : Option Database :=
  if h : (db.users.Has b.userID ∧ db.users.Has b.bannedByUserID) ∧ b.userID ≠ b.bannedByUserID ∧
      db.bans.find b.userID = none then
    some (db.setBans (db.bans.insert b h.2.2) (by
      intro b' hb'
      rcases Keyed.mem_insert.mp hb' with rfl | hb'
      · exact h.1
      · exact db.refs.ban hb'))
  else none

def deleteBans (p : Ban → Bool) : Database :=
  db.setBans (db.bans.delete p) fun hb => db.refs.ban (Keyed.mem_delete.mp hb).1

/-- The partial unique index on pending invitations has no place for another one. -/
def invitePending (serverID inviteeUserID : ℕ) : Bool :=
  db.invites.toList.any fun r =>
    r.2.serverID = serverID ∧ r.2.inviteeUserID = inviteeUserID ∧ r.2.status = .pending

/-- `INSERT INTO server_invites`, with `CHECK (inviter_user_id <> invitee_user_id)`. -/
def insertInvite (i : Invite) : Option Database :=
  if h : (db.servers.Has i.serverID ∧ db.users.Has i.inviterUserID ∧ db.users.Has i.inviteeUserID) ∧
      i.inviterUserID ≠ i.inviteeUserID then
    some (db.setInvites (db.invites.insert i) (by
      intro id i' hi'
      rw [get_insert] at hi'
      split at hi'
      · exact some.inj hi' ▸ h.1
      · exact db.refs.invite hi'))
  else none

def setInviteStatus (p : ℕ → Invite → Bool) (status : InviteStatus) : Database :=
  db.setInvites
    (db.invites.alter fun id i => some (if p id i then { i with status := status } else i)) (by
    intro id i' hi'
    obtain ⟨i, hi, hf⟩ := bind_eq_some_iff.mp hi'
    have hold := db.refs.invite hi
    rw [← some.inj hf]
    split
    · exact hold
    · exact hold)

def deleteInvites (p : Invite → Bool) : Database :=
  db.setInvites (db.invites.delete p) fun hi => db.refs.invite
    ((get_delete_eq_some _).mp hi).1

/-- `INSERT INTO server_invite_links`, unless the token is taken. -/
def insertLink (l : Link) : Option Database :=
  if h : (db.servers.Has l.serverID ∧ db.users.Has l.createdBy) ∧
      ∀ r ∈ db.links.toList, r.2.tokenHash ≠ l.tokenHash then
    some (db.setLinks (db.links.insert l) (by
      intro id l' hl'
      rw [get_insert] at hl'
      split at hl'
      · exact some.inj hl' ▸ h.1
      · exact db.refs.link hl'))
  else none

/-- `UPDATE server_invite_links`: a link stays with its server and its creator. -/
def updateLink (id : ℕ) (f : Link → Link)
    (hf : ∀ l, (f l).serverID = l.serverID ∧ (f l).createdBy = l.createdBy) : Database :=
  db.setLinks (db.links.modify id f) (by
    intro k l' hl'
    rw [get_modify] at hl'
    split at hl'
    · obtain ⟨l, hl, rfl⟩ := map_eq_some_iff.mp hl'
      rw [(hf l).1, (hf l).2]
      exact db.refs.link hl
    · exact db.refs.link hl')

def deleteLinks (p : Link → Bool) : Database :=
  db.setLinks (db.links.delete p) fun hl => db.refs.link ((get_delete_eq_some _).mp hl).1

/-! ### Queries -/

def undeleted (userID : ℕ) : Bool :=
  (db.users.get userID).any fun u => u.deletedAt = none

def banned (userID : ℕ) : Bool :=
  (db.bans.find userID).isSome

def active (userID : ℕ) : Bool :=
  db.undeleted userID && !db.banned userID

def roleOf (serverID userID : ℕ) : Option Role :=
  (db.members.find (serverID, userID)).map Member.role

def sessionByToken (tokenHash : ℕ) : Option (ℕ × Session) :=
  db.sessions.toList.find? fun r => r.2.tokenHash = tokenHash

def findActiveUserID (now : Int) (tokenHash : ℕ) : Option ℕ :=
  (db.sessionByToken tokenHash).bind fun r =>
    if now < r.2.expiresAt ∧ db.active r.2.userID then some r.2.userID else none

end Database

end Voxhold.Account
