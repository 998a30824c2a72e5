/-
# Voxhold.Account.Transactions — the write transactions of accounts, members and invitations

The repositories' write transactions, each with the checks its service makes before it. Only
answering an invitation that has expired commits something (the new status) AND returns an error.
The time and every random value are arguments.
-/

import Voxhold.Account.Database
import Voxhold.Lib.Trace

namespace Voxhold.Account

open Voxhold.Lib Database Option

/-! ## Errors -/

inductive Error where
  | memberNotFound
  | manageMembersForbidden
  | roleInvalid
  | ownerRoleImmutable
  | cannotChangeOwnRole
  | ownerCannotBeBanned
  | cannotBanSelf
  | timeoutInvalid
  | banNotFound
  | banReasonTooLong
  | membershipNotFound
  | ownerCannotLeave
  | usernameInvalid
  | cannotInviteSelf
  | userNotFound
  | alreadyMember
  | inviteAlreadyPending
  | forbidden
  | linkInvalid
  | linkLifetimeInvalid
  | registrationLinkTooLong
  | linkMaxUsesInvalid
  | registrationLimitNeeded
  | linkNotFound
  | inviteNotFound
  | inviteNotPending
  | inviteExpired
  | registrationInviteInvalid
  | usernameTaken
  | wrongCurrentPassword
  | sessionNotFound
  | unauthorized
  | database
deriving DecidableEq, Repr

namespace Database

variable (db : Database)

/-! ## Members -/

def findMemberRole (serverID userID : ℕ) : Except Error Role :=
  found (db.roleOf serverID userID) .memberNotFound

/-- The role of who asks: for them, not being a member is not being allowed. -/
def requesterRole (serverID userID : ℕ) : Except Error Role :=
  found (db.roleOf serverID userID) .manageMembersForbidden

/-- Owners act on everybody else, admins on plain members. -/
def mayManage (requester target : Role) : Prop :=
  requester = .owner ∨ (requester = .admin ∧ target = .member)
deriving Decidable

def setRole (serverID userID : ℕ) (role : Role) : Database :=
  db.updateMember serverID userID (fun m => { m with role := role }) (by intro; rfl)

def setTimeout (serverID userID : ℕ) (expiry : Option Int) : Database :=
  db.updateMember serverID userID (fun m => { m with timeoutUntil := expiry }) (by intro; rfl)

def updateMemberRole (serverID requesterUserID targetUserID : ℕ) (role : Role) :
    Except Error Database := do
  require (0 < serverID ∧ 0 < requesterUserID) .manageMembersForbidden
  require (0 < targetUserID) .memberNotFound
  require (role ≠ .owner) .roleInvalid
  let requesterRole ← db.requesterRole serverID requesterUserID
  require (requesterRole = .owner) .manageMembersForbidden
  require (requesterUserID ≠ targetUserID) .cannotChangeOwnRole
  let targetRole ← db.findMemberRole serverID targetUserID
  require (targetRole ≠ .owner) .ownerRoleImmutable
  if targetRole = role then return db
  else return db.setRole serverID targetUserID role

/-- What a ban and an account deletion take away: sessions, invitations, links and memberships. -/
def revokeAccess (userID : ℕ) : Database :=
  (((db.deleteSessions fun _ s => s.userID = userID).deleteInvites
    fun i => i.inviterUserID = userID ∨ i.inviteeUserID = userID).deleteLinks
      fun l => l.createdBy = userID).deleteMembers fun m => m.userID = userID

def maxBanReasonRunes : ℕ := 500

def banMemberWithReason (serverID requesterUserID targetUserID : ℕ) (reason : String) :
    Except Error Database := do
  require (reason.length ≤ maxBanReasonRunes) .banReasonTooLong
  require (0 < serverID ∧ 0 < requesterUserID) .manageMembersForbidden
  require (0 < targetUserID) .memberNotFound
  let requesterRole ← db.requesterRole serverID requesterUserID
  require (requesterUserID ≠ targetUserID) .cannotBanSelf
  let targetRole ← db.findMemberRole serverID targetUserID
  require (targetRole ≠ .owner) .ownerCannotBeBanned
  require (mayManage requesterRole targetRole) .manageMembersForbidden
  let banned ← found (db.insertBan ⟨targetUserID, requesterUserID, reason⟩) .database
  return banned.revokeAccess targetUserID

def unban (serverID requesterUserID targetUserID : ℕ) : Except Error Database := do
  let requesterRole ← db.requesterRole serverID requesterUserID
  let ban ← found (db.bans.find targetUserID) .banNotFound
  require (requesterRole = .owner ∨ (requesterRole = .admin ∧ ban.bannedByUserID = requesterUserID))
    .manageMembersForbidden
  return db.deleteBans fun b => b.userID = targetUserID

def maxTimeout : Int := 28 * 24 * 3600

def setMemberTimeout (serverID requesterUserID targetUserID : ℕ) (expiry : Option Int) (now : Int) :
    Except Error Database := do
  require (∀ t ∈ expiry, now < t ∧ t ≤ now + maxTimeout) .timeoutInvalid
  require (0 < serverID ∧ 0 < requesterUserID) .manageMembersForbidden
  require (0 < targetUserID) .memberNotFound
  let requesterRole ← db.requesterRole serverID requesterUserID
  require (requesterUserID ≠ targetUserID) .cannotBanSelf
  let targetRole ← db.findMemberRole serverID targetUserID
  require (targetRole ≠ .owner) .ownerCannotBeBanned
  require (mayManage requesterRole targetRole) .manageMembersForbidden
  return db.setTimeout serverID targetUserID expiry

/-- `username = 'Удалённый #' || …`, no key, no password, `deleted_at = unixepoch()`. -/
def anonymise (userID : ℕ) (name : String) (now : Int) : Database :=
  db.updateUser userID fun _ => ⟨name, none, "", some now⟩

/-- `DeleteAccount`, which also says of which server the user was a member. -/
def deleteAccount (userID : ℕ) (name : String) (now : Int) : Except Error (Database × ℕ) := do
  require (0 < userID) .membershipNotFound
  let m ← found (db.members.rows.find? fun m => m.userID = userID) .membershipNotFound
  require (m.role ≠ .owner) .ownerCannotLeave
  require (db.undeleted userID) .membershipNotFound
  require (∀ r ∈ db.users.toList, r.2.username ≠ name) .database
  return ((db.revokeAccess userID).anonymise userID name now, m.serverID)

/-! ## Invitation links -/

/-- `server_members.role IN ('owner', 'admin')`. -/
def mayInvite (serverID userID : ℕ) : Prop :=
  db.roleOf serverID userID = some .owner ∨ db.roleOf serverID userID = some .admin
deriving Decidable

def minLinkLifetime : Int := 5 * 60

def maxLinkLifetime : Int := 30 * 24 * 3600

def maxRegistrationLinkLifetime : Int := 24 * 3600

def maxLinkUses : ℕ := 1000

def createLink (serverID creatorUserID tokenHash : ℕ) (lifetime : Int) (maxUses : Option ℕ)
    (allowRegistration : Bool) (now : Int) : Except Error Database := do
  require (0 < serverID ∧ 0 < creatorUserID) .forbidden
  require (minLinkLifetime ≤ lifetime ∧ lifetime ≤ maxLinkLifetime) .linkLifetimeInvalid
  require (allowRegistration → lifetime ≤ maxRegistrationLinkLifetime) .registrationLinkTooLong
  require (∀ n ∈ maxUses, 1 ≤ n ∧ n ≤ maxLinkUses) .linkMaxUsesInvalid
  require (allowRegistration → maxUses.isSome) .registrationLimitNeeded
  require (db.mayInvite serverID creatorUserID) .forbidden
  found (db.insertLink ⟨serverID, creatorUserID, tokenHash, now + lifetime, maxUses, 0, none,
    allowRegistration, fun _ _ => Nat.zero_le _⟩) .database

/-- `revoked_at = COALESCE(revoked_at, unixepoch())`. -/
def revokeLink (serverID linkID userID : ℕ) (now : Int) : Except Error Database := do
  require (db.mayInvite serverID userID) .forbidden
  let l ← found (db.links.get linkID) .linkNotFound
  require (l.serverID = serverID) .linkNotFound
  return db.updateLink linkID (fun l => { l with revokedAt := l.revokedAt.or (some now) })
    (by intro; exact ⟨rfl, rfl⟩)

def linkByToken (tokenHash : ℕ) : Option (ℕ × Link) :=
  db.links.toList.find? fun r => r.2.tokenHash = tokenHash

def consumeLink (linkID : ℕ) (now : Int) : Database :=
  db.updateLink linkID (fun l => if h : l.Usable now then l.consume h else l) (by
    intro l
    split
    · exact ⟨rfl, rfl⟩
    · exact ⟨rfl, rfl⟩)

structure Joined where
  db : Database
  serverID : ℕ
  alreadyMember : Bool

/-- `AcceptLink`. Whether the account is banned or deleted is not looked at. -/
def acceptLink (tokenHash userID : ℕ) (now : Int) : Except Error Joined := do
  require (0 < userID) .linkInvalid
  let link ← found (db.linkByToken tokenHash) .linkInvalid
  if link.2.Usable now ∧ db.roleOf link.2.serverID userID = none then
    let joined ← found
      ((db.consumeLink link.1 now).insertMember ⟨link.2.serverID, userID, .member, none⟩) .database
    return ⟨joined, link.2.serverID, false⟩
  else
    require (db.roleOf link.2.serverID userID ≠ none) .linkInvalid
    return ⟨db, link.2.serverID, true⟩

/-- `RegisterWithInvite`: a new account, its membership and its first session. -/
def registerWithInvite (username usernameKey passwordHash : String)
    (inviteTokenHash sessionTokenHash : ℕ) (sessionExpiresAt now : Int) : Except Error Joined := do
  let link ← found (db.linkByToken inviteTokenHash) .registrationInviteInvalid
  require (link.2.Usable now ∧ link.2.allowRegistration ∧
    link.2.maxUses.isSome) .registrationInviteInvalid
  require (∀ r ∈ db.users.toList, r.2.username ≠ username ∧ r.2.usernameKey ≠ some usernameKey)
    .usernameTaken
  let userID := db.users.next
  let created := (db.consumeLink link.1 now).insertUser
    ⟨username, some usernameKey, passwordHash, none⟩
  let joined ← found (created.insertMember ⟨link.2.serverID, userID, .member, none⟩) .database
  let result ← found (joined.insertSession ⟨userID, sessionTokenHash, sessionExpiresAt⟩) .database
  return ⟨result, link.2.serverID, false⟩

/-! ## Direct invitations -/

def directInviteLifetime : Int := 7 * 24 * 3600

def userByName (username : String) : Option ℕ :=
  (db.users.toList.find? fun r => r.2.username = username ∧ db.active r.1).map Prod.fst

def createDirect (serverID inviterUserID : ℕ) (inviteeUsername : String) (now : Int) :
    Except Error Database := do
  require (0 < serverID ∧ 0 < inviterUserID) .forbidden
  require (3 ≤ inviteeUsername.length ∧ inviteeUsername.length ≤ 32) .usernameInvalid
  require (db.mayInvite serverID inviterUserID) .forbidden
  let inviteeUserID ← found (db.userByName inviteeUsername) .userNotFound
  require (inviterUserID ≠ inviteeUserID) .cannotInviteSelf
  require (db.roleOf serverID inviteeUserID = none) .alreadyMember
  let cleared := db.setInviteStatus (fun _ i => i.serverID = serverID ∧
    i.inviteeUserID = inviteeUserID ∧ i.status = .pending ∧ i.expiresAt ≤ now) .expired
  require (!cleared.invitePending serverID inviteeUserID) .inviteAlreadyPending
  found (cleared.insertInvite ⟨serverID, inviterUserID, inviteeUserID, .pending,
    now + directInviteLifetime⟩) .database

/-- An invitation that cannot be answered any more; one that is found to have expired is marked so.
-/
def unanswerable (inviteID : ℕ) (i : Invite) (now : Int) : Database × Error :=
  if i.status = .expired then (db, .inviteExpired)
  else if i.status ≠ .pending then (db, .inviteNotPending)
  else if i.expiresAt ≤ now then
    (db.setInviteStatus (fun id i => id = inviteID ∧ i.status = .pending) .expired, .inviteExpired)
  else (db, .inviteNotPending)

/-- The invitation that is answered; it is looked at again, at `later`, if it cannot be. -/
def answer (inviteID inviteeUserID : ℕ) (now later : Int) {α : Type}
    (respond : Invite → Option (Database × α)) : Database × Except Error α :=
  match db.invites.get inviteID with
  | none => (db, .error .inviteNotFound)
  | some i =>
    if i.inviteeUserID ≠ inviteeUserID then (db, .error .inviteNotFound)
    else if i.status = .pending ∧ now < i.expiresAt then
      match respond i with
      | none => (db, .error .database)
      | some (db', a) => (db', .ok a)
    else ((db.unanswerable inviteID i later).1, .error (db.unanswerable inviteID i later).2)

/-- `Accept`, which says of which server the user is a member now. -/
def accept (inviteID inviteeUserID : ℕ) (now later : Int) : Database × Except Error ℕ :=
  db.answer inviteID inviteeUserID now later fun i =>
    ((db.setInviteStatus (fun id _ => id = inviteID) .accepted).insertMember
      ⟨i.serverID, inviteeUserID, .member, none⟩).map fun db' => (db', i.serverID)

def decline (inviteID inviteeUserID : ℕ) (now later : Int) : Database × Except Error Unit :=
  db.answer inviteID inviteeUserID now later fun _ =>
    some (db.setInviteStatus (fun id _ => id = inviteID) .declined, ())

/-! ## Sessions and passwords -/

def createSession (userID tokenHash : ℕ) (expiresAt : Int) : Except Error Database :=
  found (db.insertSession ⟨userID, tokenHash, expiresAt⟩) .database

def deleteByTokenHash (tokenHash : ℕ) : Database :=
  db.deleteSessions fun _ s => s.tokenHash = tokenHash

/-- `SET token_hash = ?, expires_at = ? WHERE token_hash = ?`, for a new token. -/
def replaceToken (oldTokenHash newTokenHash : ℕ) (newExpiresAt : Int)
    (hnew : ∀ r ∈ db.sessions.toList, r.2.tokenHash ≠ newTokenHash) : Database :=
  db.alterSessions (fun _ s => some (if s.tokenHash = oldTokenHash then
      { s with tokenHash := newTokenHash, expiresAt := newExpiresAt } else s))
    (by
      intro id s s' h
      rw [← some.inj h]
      split
      · rfl
      · rfl)
    (by
      have hfree : ∀ {i s}, db.sessions.get i = some s → s.tokenHash ≠ newTokenHash :=
        fun hs => hnew (_, _) (Table.mem_toList.mpr hs)
      intro i j s t hi hj heq
      obtain ⟨s₀, hs₀, hs⟩ := bind_eq_some_iff.mp hi
      obtain ⟨t₀, ht₀, ht⟩ := bind_eq_some_iff.mp hj
      refine db.tokens hs₀ ht₀ ?_
      rw [← some.inj hs, ← some.inj ht] at heq
      split at heq <;> split at heq
      · next h₁ h₂ => exact h₁.trans h₂.symm
      · exact absurd heq.symm (hfree ht₀)
      · exact absurd heq (hfree hs₀)
      · exact heq)

def rotate (oldTokenHash newTokenHash : ℕ) (newExpiresAt now : Int) : Except Error Database := do
  let _ ← found (db.findActiveUserID now oldTokenHash) .unauthorized
  if hnew : ∀ r ∈ db.sessions.toList, r.2.tokenHash ≠ newTokenHash then
    return db.replaceToken oldTokenHash newTokenHash newExpiresAt hnew
  else .error .database

def deleteByID (userID sessionID : ℕ) : Except Error (Database × ℕ) := do
  let s ← found (db.sessions.get sessionID) .sessionNotFound
  require (s.userID = userID) .sessionNotFound
  return (db.deleteSessions fun id _ => id = sessionID, s.tokenHash)

def isOther (userID keepHash : ℕ) (s : Session) : Bool :=
  s.userID = userID ∧ s.tokenHash ≠ keepHash

/-- The hashes that `DELETE … WHERE user_id=? AND token_hash<>? RETURNING token_hash` returns. -/
def otherHashes (userID keepHash : ℕ) : List ℕ :=
  (db.sessions.toList.filter fun r => isOther userID keepHash r.2).map fun r => r.2.tokenHash

def deleteOthers (userID keepHash : ℕ) : Database × List ℕ :=
  (db.deleteSessions fun _ => isOther userID keepHash, db.otherHashes userID keepHash)

def replacePassword (userID : ℕ) (expectedHash passwordHash : String) (keepHash : ℕ) :
    Except Error (Database × List ℕ) := do
  let u ← found (db.users.get userID) .wrongCurrentPassword
  require (u.passwordHash = expectedHash ∧ u.deletedAt = none) .wrongCurrentPassword
  return (db.updateUser userID fun u =>
    { u with passwordHash := passwordHash }).deleteOthers userID keepHash

/-- `DeleteExpired` removes some of the sessions that have expired. -/
def deleteExpired (now : Int) (batch : List ℕ) : Database :=
  db.deleteSessions fun id s => s.expiresAt ≤ now ∧ id ∈ batch

end Database

/-! ## Calls -/

inductive Call where
  | createLink (serverID creatorUserID tokenHash : ℕ) (lifetime : Int) (maxUses : Option ℕ)
      (allowRegistration : Bool)
  | revokeLink (serverID linkID userID : ℕ)
  | acceptLink (tokenHash userID : ℕ)
  | register (username usernameKey passwordHash : String) (inviteTokenHash sessionTokenHash : ℕ)
      (sessionExpiresAt : Int)
  | createDirect (serverID inviterUserID : ℕ) (inviteeUsername : String)
  | accept (inviteID inviteeUserID : ℕ)
  | decline (inviteID inviteeUserID : ℕ)
  | updateMemberRole (serverID requesterUserID targetUserID : ℕ) (role : Role)
  | banMember (serverID requesterUserID targetUserID : ℕ) (reason : String)
  | unban (serverID requesterUserID targetUserID : ℕ)
  | setMemberTimeout (serverID requesterUserID targetUserID : ℕ) (expiry : Option Int)
  | deleteAccount (userID : ℕ) (name : String)
  | createSession (userID tokenHash : ℕ) (expiresAt : Int)
  | logout (tokenHash : ℕ)
  | refresh (oldTokenHash newTokenHash : ℕ) (newExpiresAt : Int)
  | revokeSessionByID (userID sessionID : ℕ)
  | revokeOthers (userID keepHash : ℕ)
  | changePassword (userID : ℕ) (expectedHash passwordHash : String) (keepHash : ℕ)
  | deleteExpired (batch : List ℕ)
deriving DecidableEq

def settle (db : Database) : Except Error Database → Database × Except Error Unit
  | .ok db' => (db', .ok ())
  | .error err => (db, .error err)

def Call.exec (now later : Int) (db : Database) : Call → Database × Except Error Unit
  | .createLink s u t life uses reg => settle db (db.createLink s u t life uses reg now)
  | .revokeLink s l u => settle db (db.revokeLink s l u now)
  | .acceptLink t u => settle db ((db.acceptLink t u now).map Database.Joined.db)
  | .register name key hash t t' expiry =>
    settle db ((db.registerWithInvite name key hash t t' expiry now).map Database.Joined.db)
  | .createDirect s u name => settle db (db.createDirect s u name now)
  | .accept i u => ((db.accept i u now later).1, (db.accept i u now later).2.map fun _ => ())
  | .decline i u => db.decline i u now later
  | .updateMemberRole s u t r => settle db (db.updateMemberRole s u t r)
  | .banMember s u t reason => settle db (db.banMemberWithReason s u t reason)
  | .unban s u t => settle db (db.unban s u t)
  | .setMemberTimeout s u t expiry => settle db (db.setMemberTimeout s u t expiry now)
  | .deleteAccount u name => settle db ((db.deleteAccount u name now).map Prod.fst)
  | .createSession u t expiry => settle db (db.createSession u t expiry)
  | .logout t => (db.deleteByTokenHash t, .ok ())
  | .refresh t t' expiry => settle db (db.rotate t t' expiry now)
  | .revokeSessionByID u id => settle db ((db.deleteByID u id).map Prod.fst)
  | .revokeOthers u t => ((db.deleteOthers u t).1, .ok ())
  | .changePassword u old new t => settle db ((db.replacePassword u old new t).map Prod.fst)
  | .deleteExpired batch => (db.deleteExpired now batch, .ok ())

/-- A call with the times it reads and whether the database carries it out: a statement that fails
or is cancelled rolls the transaction back. -/
structure Request where
  call : Call
  now : Int
  later : Int
  completes : Bool

def Request.exec (db : Database) (r : Request) : Database × Except Error Unit :=
  if r.completes then r.call.exec r.now r.later db else (db, .error .database)

def Request.apply (db : Database) (r : Request) : Database :=
  (r.exec db).1

/-! ## What calls do to memberships, bans, deletions and pending invitations -/

/-- Nobody's standing changes: the same memberships and bans, no account deleted, and a pending
invitation either was there before or is a new one for an account that is neither deleted nor
banned. -/
structure SameStanding (db db' : Database) : Prop where
  servers : db'.servers = db.servers
  members : db'.members = db.members
  bans : db'.bans = db.bans
  deleted : ∀ u, db.users.Has u → db'.undeleted u = db.undeleted u
  invites : ∀ {id i}, db'.invites.get id = some i → i.status = .pending →
    db.active i.inviteeUserID ∨ ∃ i₀, db.invites.get id = some i₀ ∧ i₀.status = .pending ∧
      i₀.inviteeUserID = i.inviteeUserID

structure SameAccounts (db db' : Database) : Prop where
  sessions : db'.sessions = db.sessions
  users : db'.users = db.users

theorem SameAccounts.refl (db : Database) : SameAccounts db db := ⟨rfl, rfl⟩

structure Untouched (db db' : Database) : Prop extends SameStanding db db', SameAccounts db db'

/-- What a call, if it returns no error, changes of anybody's standing, and what it has checked. -/
inductive Effect (db : Database) : Call → Database → Prop where
  | same (call : Call) (db' : Database) (h : SameStanding db db') : Effect db call db'
  | acceptLink (t u linkID serverID : ℕ) (now : Int) (db' : Database)
      (hnew : db.roleOf serverID u = none)
      (hjoin : (db.consumeLink linkID now).insertMember ⟨serverID, u, .member, none⟩ = some db') :
      Effect db (.acceptLink t u) db'
  | register (name key hash : String) (t t' linkID serverID : ℕ) (now expiry : Int)
      (joined db' : Database)
      (hjoin : ((db.consumeLink linkID now).insertUser ⟨name, some key, hash, none⟩).insertMember
        ⟨serverID, db.users.next, .member, none⟩ = some joined)
      (hsession : joined.insertSession ⟨db.users.next, t', expiry⟩ = some db') :
      Effect db (.register name key hash t t' expiry) db'
  | accept (inviteID u : ℕ) (i : Invite) (db' : Database)
      (hinvite : db.invites.get inviteID = some i)
      (hpending : i.status = .pending) (hinvitee : i.inviteeUserID = u)
      (hjoin : (db.setInviteStatus (fun id _ => id = inviteID) .accepted).insertMember
        ⟨i.serverID, u, .member, none⟩ = some db') : Effect db (.accept inviteID u) db'
  | setRole (s u t : ℕ) (old role : Role) (hrole : role ≠ .owner) (hu : db.roleOf s u = some .owner)
      (hut : u ≠ t) (ht : db.roleOf s t = some old) (hold : old ≠ .owner) :
      Effect db (.updateMemberRole s u t role) (db.setRole s t role)
  | ban (s u t : ℕ) (reason : String) (ru rt : Role) (banned : Database)
      (hu : db.roleOf s u = some ru)
      (hut : u ≠ t) (ht : db.roleOf s t = some rt) (howner : rt ≠ .owner)
        (hmay : Database.mayManage ru rt)
      (hban : db.insertBan ⟨t, u, reason⟩ = some banned) :
      Effect db (.banMember s u t reason) (banned.revokeAccess t)
  | unban (s u t : ℕ) (ru : Role) (b : Ban) (hu : db.roleOf s u = some ru)
      (hb : db.bans.find t = some b) (hmay : ru = .owner ∨ (ru = .admin ∧ b.bannedByUserID = u)) :
      Effect db (.unban s u t) (db.deleteBans fun b => b.userID = t)
  | setTimeout (s u t : ℕ) (expiry : Option Int) (ru rt : Role) (hu : db.roleOf s u = some ru)
      (hut : u ≠ t) (ht : db.roleOf s t = some rt) (howner : rt ≠ .owner)
      (hmay : Database.mayManage ru rt) :
      Effect db (.setMemberTimeout s u t expiry) (db.setTimeout s t expiry)
  | deleteAccount (u : ℕ) (name : String) (now : Int) (m : Member) (hm : m ∈ db.members.rows)
      (hu : m.userID = u) (howner : m.role ≠ .owner) :
      Effect db (.deleteAccount u name) ((db.revokeAccess u).anonymise u name now)

namespace SameStanding

variable {db db' : Database}

theorem refl (db : Database) : SameStanding db db where
  servers := rfl
  members := rfl
  bans := rfl
  deleted := fun _ _ => rfl
  invites := fun h hp => .inr ⟨_, h, hp, rfl⟩

theorem of_invites_eq (hu : db'.users = db.users) (hs : db'.servers = db.servers)
    (hm : db'.members = db.members) (hb : db'.bans = db.bans) (hi : db'.invites = db.invites) :
    SameStanding db db' where
  servers := hs
  members := hm
  bans := hb
  deleted u _ := by
    rw [undeleted, hu, undeleted]
  invites := fun h hp => .inr ⟨_, hi ▸ h, hp, rfl⟩

theorem setInviteStatus (p : ℕ → Invite → Bool) {status : InviteStatus}
    (hstatus : status ≠ .pending) : SameStanding db (db.setInviteStatus p status) where
  servers := rfl
  members := rfl
  bans := rfl
  deleted := fun _ _ => rfl
  invites := by
    intro id i h hp
    obtain ⟨i₀, hi₀, hf⟩ := bind_eq_some_iff.mp h
    dsimp only at hf
    split at hf
    · cases hf
      exact absurd hp hstatus
    · obtain rfl := some.inj hf
      exact .inr ⟨i₀, hi₀, hp, rfl⟩

end SameStanding

theorem Untouched.refl (db : Database) : Untouched db db := ⟨.refl db, .refl db⟩

section Effects

variable {db db' : Database} {call : Call} {now later : Int}
  {s u t : ℕ} {name : String}

theorem effect_settle {tx : Except Error Database} (h : ∀ db', tx = .ok db' → Effect db call db') :
    Effect db call (settle db tx).1 := by
  cases tx with
  | ok db' => exact h db' rfl
  | error err => exact .same call db (.refl db)

theorem untouched_createLink {life : Int} {uses : Option ℕ} {reg : Bool}
    (h : db.createLink s u t life uses reg now = .ok db') : Untouched db db' := by
  simp only [createLink, bind_eq_ok, require_eq_ok, found_eq_ok] at h
  obtain ⟨-, -, -, -, -, -, -, -, -, -, -, -, h⟩ := h
  unfold insertLink at h
  split at h
  · cases h
    exact ⟨.of_invites_eq rfl rfl rfl rfl rfl, rfl, rfl⟩
  · cases h

theorem untouched_revokeLink {l : ℕ} (h : db.revokeLink s l u now = .ok db') :
    Untouched db db' := by
  simp only [revokeLink, bind_eq_ok, require_eq_ok, found_eq_ok] at h
  obtain ⟨-, -, _, -, -, -, h⟩ := h
  cases h
  exact ⟨.of_invites_eq rfl rfl rfl rfl rfl, rfl, rfl⟩

theorem active_of_userByName (h : db.userByName name = some u) : db.active u := by
  obtain ⟨r, hr, rfl⟩ := map_eq_some_iff.mp h
  have hfound := List.find?_some hr
  simp only [Bool.decide_and, Bool.decide_eq_true, Bool.and_eq_true] at hfound
  exact hfound.2

theorem untouched_createDirect (h : db.createDirect s u name now = .ok db') : Untouched db db' := by
  simp only [createDirect, bind_eq_ok, require_eq_ok, found_eq_ok] at h
  obtain ⟨-, -, -, -, -, -, invitee, hinvitee, -, -, -, -, -, -, h⟩ := h
  have hcleared : SameStanding db (db.setInviteStatus (fun _ i => i.serverID = s ∧
      i.inviteeUserID = invitee ∧ i.status = .pending ∧ i.expiresAt ≤ now) .expired) :=
    .setInviteStatus _ (by simp)
  unfold insertInvite at h
  split at h
  · cases h
    refine ⟨{ hcleared with invites := ?_ }, rfl, rfl⟩
    intro id i hi hp
    rw [setInvites_invites, Table.get_insert] at hi
    split at hi
    · cases hi
      exact .inl (active_of_userByName hinvitee)
    · exact hcleared.invites hi hp
  · cases h

theorem untouched_unanswerable (inviteID : ℕ) (i : Invite) :
    Untouched db (db.unanswerable inviteID i now).1 := by
  unfold unanswerable
  split
  · exact .refl db
  split
  · exact .refl db
  split
  · exact ⟨.setInviteStatus _ nofun, rfl, rfl⟩
  · exact .refl db

theorem answer_cases {α : Type} (db : Database) (now later : Int) (inviteID u : ℕ)
    (respond : Invite → Option (Database × α)) :
    (∃ i a db', db.invites.get inviteID = some i ∧ i.status = .pending ∧ i.inviteeUserID = u ∧
      respond i = some (db', a) ∧ db.answer inviteID u now later respond = (db', .ok a)) ∨
    ∃ err, (db.answer inviteID u now later respond).2 = .error err ∧
      Untouched db (db.answer inviteID u now later respond).1 := by
  unfold answer
  cases hi : db.invites.get inviteID with
  | none => exact .inr ⟨_, rfl, .refl db⟩
  | some i =>
    dsimp only
    by_cases hu : i.inviteeUserID = u
    · rw [if_neg (not_not.mpr hu)]
      by_cases hp : i.status = .pending ∧ now < i.expiresAt
      · rw [if_pos hp]
        cases hr : respond i with
        | none => exact .inr ⟨_, rfl, .refl db⟩
        | some r => exact .inl ⟨i, r.2, r.1, rfl, hp.1, hu, hr, rfl⟩
      · rw [if_neg hp]
        exact .inr ⟨_, rfl, untouched_unanswerable inviteID i⟩
    · rw [if_pos hu]
      exact .inr ⟨_, rfl, .refl db⟩

theorem effect_acceptLink {joined : Database.Joined}
    (h : db.acceptLink t u now = .ok joined) : Effect db (.acceptLink t u) joined.db := by
  simp only [acceptLink, bind_eq_ok, require_eq_ok, found_eq_ok] at h
  obtain ⟨-, -, link, -, h⟩ := h
  split at h
  · next hnew =>
    obtain ⟨db', hjoin, h⟩ := bind_eq_ok.mp h
    cases h
    exact .acceptLink t u link.1 link.2.serverID now db' hnew.2 (found_eq_ok.mp hjoin)
  · obtain ⟨-, -, h⟩ := bind_eq_ok.mp h
    cases h
    exact .same _ db (.refl db)

theorem effect_register {key hash : String} {t' : ℕ} {expiry : Int} {joined : Database.Joined}
    (h : db.registerWithInvite name key hash t t' expiry now = .ok joined) :
    Effect db (.register name key hash t t' expiry) joined.db := by
  simp only [registerWithInvite, bind_eq_ok, require_eq_ok, found_eq_ok] at h
  obtain ⟨link, -, -, -, -, -, db₁, hjoin, db₂, hsession, h⟩ := h
  cases h
  exact .register name key hash t t' link.1 link.2.serverID now expiry db₁ db₂ hjoin hsession

theorem effect_updateMemberRole {role : Role} (h : db.updateMemberRole s u t role = .ok db') :
    Effect db (.updateMemberRole s u t role) db' := by
  simp only [updateMemberRole, requesterRole, findMemberRole, bind_eq_ok,
    require_eq_ok, found_eq_ok] at h
  obtain ⟨-, -, -, -, -, hrole, ru, hu, -, rfl, -, hut, rt, ht, -, howner, h⟩ := h
  split at h
  · cases h
    exact .same _ db (.refl db)
  · cases h
    exact .setRole s u t rt role hrole hu hut ht howner

theorem effect_banMember {reason : String} (h : db.banMemberWithReason s u t reason = .ok db') :
    Effect db (.banMember s u t reason) db' := by
  simp only [banMemberWithReason, requesterRole, findMemberRole, bind_eq_ok,
    require_eq_ok, found_eq_ok] at h
  obtain ⟨-, -, -, -, -, -, ru, hu, -, hut, rt, ht, -, howner, -, hmay, banned, hban, h⟩ := h
  cases h
  exact .ban s u t reason ru rt banned hu hut ht howner hmay hban

theorem effect_unban (h : db.unban s u t = .ok db') : Effect db (.unban s u t) db' := by
  simp only [unban, requesterRole, bind_eq_ok, require_eq_ok, found_eq_ok] at h
  obtain ⟨ru, hu, b, hb, -, hmay, h⟩ := h
  cases h
  exact .unban s u t ru b hu hb hmay

theorem effect_setMemberTimeout {expiry : Option Int}
    (h : db.setMemberTimeout s u t expiry now = .ok db') :
    Effect db (.setMemberTimeout s u t expiry) db' := by
  simp only [setMemberTimeout, requesterRole, findMemberRole, bind_eq_ok,
    require_eq_ok, found_eq_ok] at h
  obtain ⟨-, -, -, -, -, -, ru, hu, -, hut, rt, ht, -, howner, -, hmay, h⟩ := h
  cases h
  exact .setTimeout s u t expiry ru rt hu hut ht howner hmay

theorem effect_deleteAccount {r : Database × ℕ}
    (h : db.deleteAccount u name now = .ok r) : Effect db (.deleteAccount u name) r.1 := by
  simp only [deleteAccount, bind_eq_ok, require_eq_ok, found_eq_ok] at h
  obtain ⟨-, -, m, hm, -, howner, -, -, -, -, h⟩ := h
  cases h
  exact .deleteAccount u name now m (List.mem_of_find?_eq_some hm)
    (of_decide_eq_true (List.find?_some hm :)) howner

theorem sameStanding_createSession {expiry : Int} (h : db.createSession u t expiry = .ok db') :
    SameStanding db db' := by
  have h := found_eq_ok.mp h
  unfold insertSession at h
  split at h
  · cases h
    exact .of_invites_eq rfl rfl rfl rfl rfl
  · cases h

theorem sameStanding_rotate {t' : ℕ} {expiry : Int} (h : db.rotate t t' expiry now = .ok db') :
    SameStanding db db' := by
  simp only [rotate, bind_eq_ok, found_eq_ok] at h
  obtain ⟨-, -, h⟩ := h
  split at h
  · cases h
    exact .of_invites_eq rfl rfl rfl rfl rfl
  · cases h

theorem sameStanding_deleteByID {id : ℕ} {r : Database × ℕ} (h : db.deleteByID u id = .ok r) :
    SameStanding db r.1 := by
  simp only [deleteByID, bind_eq_ok, require_eq_ok, found_eq_ok] at h
  obtain ⟨s, -, -, -, h⟩ := h
  cases h
  exact .of_invites_eq rfl rfl rfl rfl rfl

theorem undeleted_updateUser_of_keeps {v : ℕ} {f : User → User}
    (hf : ∀ r, (f r).deletedAt = r.deletedAt) :
    (db.updateUser u f).undeleted v = db.undeleted v := by
  rw [undeleted, updateUser, setUsers_users, Table.get_modify]
  split
  · rw [any_map, undeleted]
    simp only [hf]
  · rfl

theorem sameStanding_replacePassword {old new : String} {r : Database × List ℕ}
    (h : db.replacePassword u old new t = .ok r) : SameStanding db r.1 := by
  simp only [replacePassword, bind_eq_ok, require_eq_ok, found_eq_ok] at h
  obtain ⟨user, -, -, -, h⟩ := h
  cases h
  exact {
    servers := rfl
    members := rfl
    bans := rfl
    deleted := fun v _ => undeleted_updateUser_of_keeps (fun _ => rfl)
    invites := fun h hp => .inr ⟨_, h, hp, rfl⟩ }

theorem effect_exec (now later : Int) (db : Database) (call : Call) :
    Effect db call (call.exec now later db).1 := by
  cases call with
  | createLink s u t life uses reg =>
    exact effect_settle fun db' h => .same _ db' (untouched_createLink h).toSameStanding
  | revokeLink s l u =>
    exact effect_settle fun db' h => .same _ db' (untouched_revokeLink h).toSameStanding
  | acceptLink t u =>
    refine effect_settle fun db' h => ?_
    obtain ⟨joined, hjoined, rfl⟩ := map_eq_ok.mp h
    exact effect_acceptLink hjoined
  | register name key hash t t' expiry =>
    refine effect_settle fun db' h => ?_
    obtain ⟨joined, hjoined, rfl⟩ := map_eq_ok.mp h
    exact effect_register hjoined
  | createDirect s u name =>
    exact effect_settle fun db' h => .same _ db' (untouched_createDirect h).toSameStanding
  | accept inviteID u =>
    rcases answer_cases db now later inviteID u _ with
      ⟨i, a, db', hi, hp, hu, hr, hans⟩ | ⟨-, -, hsame⟩
    · obtain ⟨joined, hjoin, heq⟩ := map_eq_some_iff.mp hr
      obtain ⟨rfl, rfl⟩ := Prod.mk.inj heq
      show Effect db (.accept inviteID u) (db.accept inviteID u now later).1
      rw [accept, hans]
      exact .accept inviteID u i joined hi hp hu hjoin
    · exact .same _ _ hsame.toSameStanding
  | decline inviteID u =>
    rcases answer_cases db now later inviteID u _ with
      ⟨i, a, db', hi, hp, hu, hr, hans⟩ | ⟨-, -, hsame⟩
    · obtain ⟨rfl, rfl⟩ := Prod.mk.inj (some.inj hr)
      show Effect db (.decline inviteID u) (db.decline inviteID u now later).1
      rw [decline, hans]
      exact .same _ _ (.setInviteStatus _ nofun)
    · exact .same _ _ hsame.toSameStanding
  | updateMemberRole s u t role => exact effect_settle fun db' h => effect_updateMemberRole h
  | banMember s u t reason => exact effect_settle fun db' h => effect_banMember h
  | unban s u t => exact effect_settle fun db' h => effect_unban h
  | setMemberTimeout s u t expiry => exact effect_settle fun db' h => effect_setMemberTimeout h
  | deleteAccount u name =>
    refine effect_settle fun db' h => ?_
    obtain ⟨r, hr, rfl⟩ := map_eq_ok.mp h
    exact effect_deleteAccount hr
  | createSession u t expiry =>
    exact effect_settle fun db' h => .same _ db' (sameStanding_createSession h)
  | logout t | revokeOthers u t | deleteExpired batch =>
    exact .same _ _ (.of_invites_eq rfl rfl rfl rfl rfl)
  | refresh t t' expiry => exact effect_settle fun db' h => .same _ db' (sameStanding_rotate h)
  | revokeSessionByID u id =>
    refine effect_settle fun db' h => ?_
    obtain ⟨r, hr, rfl⟩ := map_eq_ok.mp h
    exact .same _ _ (sameStanding_deleteByID hr)
  | changePassword u old new t =>
    refine effect_settle fun db' h => ?_
    obtain ⟨r, hr, rfl⟩ := map_eq_ok.mp h
    exact .same _ _ (sameStanding_replacePassword hr)

theorem effect_apply (db : Database) (r : Request) : Effect db r.call (r.apply db) := by
  unfold Request.apply Request.exec
  split
  · exact effect_exec r.now r.later db r.call
  · exact .same _ db (.refl db)

/-! ## What errors leave -/

theorem sameStanding_settle {tx : Except Error Database} {err : Error}
    (h : (settle db tx).2 = .error err) : SameStanding db (settle db tx).1 := by
  cases tx with
  | ok db' => cases h
  | error _ => exact .refl db

theorem sameStanding_of_error {r : Request} {err : Error} (h : (r.exec db).2 = .error err) :
    SameStanding db (r.apply db) := by
  obtain ⟨call, now, later, completes⟩ := r
  unfold Request.apply
  unfold Request.exec at h ⊢
  dsimp only at h ⊢
  split at h
  · next hdone =>
    rw [if_pos hdone]
    cases call with
    | accept i u =>
      rcases answer_cases db now later i u _ with ⟨_, a, db', -, -, -, -, hans⟩ | ⟨_, -, hsame⟩
      · have hok : (db.accept i u now later).2 = .ok a := by rw [accept, hans]
        simp only [Call.exec, hok] at h
        cases h
      · exact hsame.toSameStanding
    | decline i u =>
      rcases answer_cases db now later i u _ with ⟨_, a, db', -, -, -, -, hans⟩ | ⟨_, -, hsame⟩
      · have hok : (db.decline i u now later).2 = .ok a := by rw [decline, hans]
        rw [Call.exec, hok] at h
        cases h
      · exact hsame.toSameStanding
    | logout | revokeOthers | deleteExpired => cases h
    | _ => exact sameStanding_settle h
  · next hfailed =>
    rw [if_neg hfailed]
    exact .refl db

end Effects

end Voxhold.Account
