/-
# Voxhold.Backend.Operations — the account services and the WebSocket handler around the hub

The hub's machine beside the database: logins, password changes, session and member management and
the WebSocket handler's connect, cut into statements and calls of the hub. No lock spans the two.
-/

import Mathlib.Data.Finset.Option
import Voxhold.Account.Bootstrap
import Voxhold.Hub.Operations
import Voxhold.Lib.Beside

namespace Voxhold.Backend

open Voxhold.Lib Voxhold.Hub Voxhold.Account

/-! ## The store -/

inductive Event where
  /-- A login's password matched this hash of the account. -/
  | compared (userID : ℕ) (passwordHash : String)
  /-- The login whose comparison is this entry of the history created the session. -/
  | created (sessionID comparison : ℕ)
  | banned (userID : ℕ)
  /-- `ChangePassword` committed the new hash and kept the one session. -/
  | changed (userID : ℕ) (passwordHash : String) (kept : Option ℕ)
  /-- A session with this token was deleted or rotated away. -/
  | revoked (key : ℕ)
  /-- The second authentication of a connection, and whether it succeeded. -/
  | authenticatedAgain (c : Client) (ok : Bool)
  | wrote (c : Client)
deriving DecidableEq

/-- The database, the tokens issued and the connections made so far, the clients that `Register`
accepted, those whose writer runs, and the history. -/
structure Store where
  db : Database
  issued : Finset ℕ
  connections : ℕ
  registered : Finset Client
  serving : Finset Client
  history : List Event

namespace Store

def log (t : Store) (events : List Event) : Store :=
  { t with history := t.history ++ events }

/-- The backend starts on a database, whose sessions have the tokens issued so far. -/
def new (db : Database) : Store :=
  ⟨db, (db.sessions.toList.map fun r => r.2.tokenHash).toFinset, 0, ∅, ∅, []⟩

end Store

abbrev State := Beside HubState Store

inductive StoreCmd where
  | findByUsername (username usernameKey password : String)
  | compare (userID : ℕ) (passwordHash password : String)
  | createSession (userID comparison : ℕ)
  | verifyPassword (userID currentToken : ℕ) (currentPassword : String)
  | call (c : Call)
  | revokeSession (key : ℕ)
  | authenticate (token : ℕ)
  | newClient (userID token : ℕ)
  | confirm (c : Client)
  | ready (c : Client)
  | write (c : Client)
deriving DecidableEq

inductive BackendOp where
  | login (username usernameKey password : String)
  | changePassword (userID currentToken : ℕ) (currentPassword newPassword newConfirm : String)
  | request (c : Call)
  | connect (token : ℕ)
  | write (c : Client)

abbrev BackendCmd := Hub.Cmd ⊕ StoreCmd

abbrev BackendInstr := Instr Lock BackendCmd

/-- What the code does not determine: the hub's choices, the clock, whether a statement succeeds,
the new token and its expiry, and the new password's salted hash. -/
structure Input where
  hub : Choice := {}
  now : Int := 0
  later : Int := 0
  completes : Bool := true
  token : ℕ := 0
  expiry : Int := 0
  hash : String := ""

/-! ## After a transaction -/

/-- What a transaction leaves: the database, what the history notes and what its service does next.
-/
structure Outcome where
  db : Database
  events : List Event
  next : List BackendInstr

/-- `RevokeSession`, or `RevokeSessionHash`, for each token. -/
def revokeSessions (keys : List ℕ) : List BackendInstr :=
  keys.map fun k => .run (.inr (.revokeSession k))

def refreshChannelAccess (serverID : ℕ) : List BackendInstr :=
  called (Op.body (.refreshChannelAccess serverID))

/-- `PublishServerMemberJoined`, then `AddUserToServer`. -/
def memberJoined (userID serverID : ℕ) : List BackendInstr :=
  refreshChannelAccess serverID ++ called (Op.body (.addUserToServer userID serverID))

def memberRemoved (userID serverID : ℕ) : List BackendInstr :=
  called (Op.body (.revokeUserFromServer userID serverID))

/-- The id of the session that a password change keeps. -/
def keptSession (db : Database) (userID keepHash : ℕ) : Option ℕ :=
  ((db.sessionByToken keepHash).filter fun r => r.2.userID = userID).map Prod.fst

/-- A call and what its service does when it succeeded. `Login` creates sessions by a command of its
own. -/
def perform (now later : Int) (db : Database) : Call → Outcome
  | .acceptLink t u =>
    match db.acceptLink t u now with
    | .ok j => ⟨j.db, [], if j.alreadyMember then [] else memberJoined u j.serverID⟩
    | .error _ => ⟨db, [], []⟩
  | .register name key hash t t' expiry =>
    match db.registerWithInvite name key hash t t' expiry now with
    | .ok j => ⟨j.db, [], memberJoined db.users.next j.serverID⟩
    | .error _ => ⟨db, [], []⟩
  | .accept i u =>
    match (db.accept i u now later).2 with
    | .ok s => ⟨(db.accept i u now later).1, [], memberJoined u s⟩
    | .error _ => ⟨(db.accept i u now later).1, [], []⟩
  | .banMember s u t reason =>
    match db.banMemberWithReason s u t reason with
    | .ok db' => ⟨db', [.banned t], memberRemoved t s⟩
    | .error _ => ⟨db, [], []⟩
  | .deleteAccount u name =>
    match db.deleteAccount u name now with
    | .ok r => ⟨r.1, [], memberRemoved u r.2⟩
    | .error _ => ⟨db, [], []⟩
  | .updateMemberRole s u t r =>
    match db.updateMemberRole s u t r with
    | .ok db' => ⟨db', [], if db.roleOf s t = some r then [] else refreshChannelAccess s⟩
    | .error _ => ⟨db, [], []⟩
  | .setMemberTimeout s u t expiry =>
    match db.setMemberTimeout s u t expiry now with
    | .ok db' => ⟨db', [], refreshChannelAccess s⟩
    | .error _ => ⟨db, [], []⟩
  | .logout t =>
    ⟨db.deleteByTokenHash t, if (db.sessionByToken t).isSome then [.revoked t] else [],
      revokeSessions [t]⟩
  | .refresh t t' expiry =>
    match db.rotate t t' expiry now with
    | .ok db' => ⟨db', [.revoked t], revokeSessions [t]⟩
    | .error _ => ⟨db, [], []⟩
  | .revokeSessionByID u id =>
    match db.deleteByID u id with
    | .ok r => ⟨r.1, [.revoked r.2], revokeSessions [r.2]⟩
    | .error _ => ⟨db, [], []⟩
  | .revokeOthers u keep =>
    ⟨(db.deleteOthers u keep).1, (db.deleteOthers u keep).2.map .revoked,
      revokeSessions (db.deleteOthers u keep).2⟩
  | .changePassword u old new keep =>
    match db.replacePassword u old new keep with
    | .ok r => ⟨r.1, .changed u new (keptSession db u keep) :: r.2.map .revoked, revokeSessions r.2⟩
    | .error _ => ⟨db, [], []⟩
  | .createSession .. => ⟨db, [], []⟩
  | .createLink s u t life uses reg =>
    ⟨((Call.createLink s u t life uses reg).exec now later db).1, [], []⟩
  | .revokeLink s l u => ⟨((Call.revokeLink s l u).exec now later db).1, [], []⟩
  | .createDirect s u name => ⟨((Call.createDirect s u name).exec now later db).1, [], []⟩
  | .decline i u => ⟨((Call.decline i u).exec now later db).1, [], []⟩
  | .unban s u t => ⟨((Call.unban s u t).exec now later db).1, [], []⟩
  | .deleteExpired batch => ⟨((Call.deleteExpired batch).exec now later db).1, [], []⟩

def newToken : Call → Option ℕ
  | .register _ _ _ _ t _ | .refresh _ t _ | .createSession _ t _ => some t
  | _ => none

/-! ## The store's commands -/

/-- `FindByUsername`: the exact name first, then its folded key; not a deleted or banned account. -/
def findByUsername (db : Database) (username usernameKey : String) : Option (ℕ × User) :=
  (db.users.toList.find? fun r => r.2.username = username ∧ db.active r.1).or
    (db.users.toList.find? fun r => r.2.usernameKey = some usernameKey ∧ db.active r.1)

def listServers (db : Database) (userID : ℕ) : Finset Int :=
  ((db.members.rows.filter fun m => m.userID = userID).map fun m => (m.serverID : Int)).toFinset

def createClient (r : Registry) (c : Client) (ids : Finset Int) (h : c ∉ r.clients) : Registry :=
  { r with
    servers := Function.update r.servers c ids
    serverIndex c' s := by
      rw [r.serverIndex]
      by_cases hc : c' = c
      · subst hc
        simp [h]
      · rw [Function.update_of_ne hc] }

/-- `Hub.revokeSessionKey`, with the clients of the session in some order. -/
def revokeSessionKey (x : Choice) (r : Registry) (key : ℕ) : Option (List BackendInstr) :=
  if x.clients.Perm (r.clientsBySession.keysAt key) then
    some (x.clients.flatMap fun c => called (Op.body (.unregister c)))
  else none

section Machine

-- `bcrypt.CompareHashAndPassword`: whether a password matches a hash
variable (compare : String → String → Bool)

def Store.exec (x : Input) (s : State) : StoreCmd → Option (State × List BackendInstr)
  | .findByUsername name key password =>
    match findByUsername s.store.db name key with
    | some r => some (s, if x.completes then [.run (.inr (.compare r.1 r.2.passwordHash password))]
      else [])
    | none => some (s, [])
  | .compare u hash password =>
    if compare hash password then
      some ({ s with store := s.store.log [.compared u hash] },
        [.run (.inr (.createSession u s.store.history.length))])
    else some (s, [])
  | .createSession u comparison =>
    if x.token ∈ s.store.issued then none
    else
      match (if x.completes then s.store.db.createSession u x.token x.expiry else
        .error .database) with
      | .ok db' =>
        let store := { s.store with db := db', issued := insert x.token s.store.issued }
        some ({ s with store := store.log [.created s.store.db.sessions.next comparison] }, [])
      | .error _ =>
        some ({ s with store := { s.store with issued := insert x.token s.store.issued } }, [])
  | .verifyPassword u token current =>
    match s.store.db.users.get u with
    | some user =>
      some (s, if x.completes ∧ user.deletedAt = none ∧ compare user.passwordHash current then
        [.run (.inr (.call (.changePassword u user.passwordHash x.hash token)))] else [])
    | none => some (s, [])
  | .call c =>
    if ∃ t ∈ newToken c, t ∈ s.store.issued then none
    else if x.completes then
      let out := perform x.now x.later s.store.db c
      let store := { s.store with db := out.db, issued := (newToken c).toFinset ∪ s.store.issued }
      some ({ s with store := store.log out.events }, out.next)
    else
      some ({ s with store := { s.store with issued := (newToken c).toFinset ∪ s.store.issued } },
        [])
  | .revokeSession key => (revokeSessionKey x.hub s.inner.registry key).map fun next => (s, next)
  | .authenticate token =>
    match s.store.db.findActiveUserID x.now token with
    | some u => some (s, if x.completes then [.run (.inr (.newClient u token))] else [])
    | none => some (s, [])
  | .newClient u token =>
    let c : Client := ⟨s.store.connections, u, token⟩
    if x.completes then
      if h : c ∉ s.inner.registry.clients then
        some (⟨{ s.inner with
              registry := createClient s.inner.registry c (listServers s.store.db u) h },
            { s.store with connections := s.store.connections + 1 }⟩,
          called (Op.body (.register c)) ++ [.run (.inr (.confirm c))])
      else none
    else some (s, [])
  | .confirm c =>
    if c ∈ s.store.registered then
      if x.completes ∧ (s.store.db.findActiveUserID x.now c.sessionKey).any
        (fun u : ℕ => c.userID = u) then
        some ({ s with store := s.store.log [.authenticatedAgain c true] },
          [.run (.inr (.ready c))])
      else some ({ s with store := s.store.log [.authenticatedAgain c false] },
        called (Op.body (.unregister c)))
    else some (s, [])
  | .ready c =>
    if x.completes then
      let store := { s.store with serving := insert c s.store.serving }
      some ({ s with store := store.log [.wrote c] }, [])
    else some (s, called (Op.body (.unregister c)))
  | .write c =>
    if c ∈ s.store.serving then some ({ s with store := s.store.log [.wrote c] }, []) else
      some (s, [])

def noteRegistered (cmd : Hub.Cmd) (h : HubState) (t : Store) : Store :=
  match cmd with
  | .registry (.index c) =>
    if h.registry.Registrable c then { t with registered := insert c t.registered } else t
  | _ => t

def BackendOp.body : BackendOp → List BackendInstr
  | .login name key password =>
    if name ≠ "" ∧ password ≠ "" then [.run (.inr (.findByUsername name key password))] else []
  | .changePassword u token current new confirm =>
    if 8 ≤ new.utf8ByteSize ∧ new.utf8ByteSize ≤ 72 ∧ new = confirm then
      [.run (.inr (.verifyPassword u token current))]
    else []
  | .request c => [.run (.inr (.call c))]
  | .connect token => [.run (.inr (.authenticate token))]
  | .write c => [.run (.inr (.write c))]

def backend : Extension hubMachine Store StoreCmd Input BackendOp where
  choice := Input.hub
  agrees := fun _ _ _ _ => true
  note := fun cmd _ h t => noteRegistered cmd h t
  exec := fun cmd x s => Store.exec compare x s cmd
  body := BackendOp.body

end Machine

/-- The operations that are started: clients register by connecting, sessions are created by logging
in and passwords replaced by `ChangePassword`. -/
def Started : Hub.Op ⊕ BackendOp → Prop
  | .inl (.register _)
  | .inr (.request (.createSession ..)) | .inr (.request (.changePassword ..)) => False
  | _ => True

instance : DecidablePred Started := by
  intro op
  unfold Started
  split <;> infer_instance

abbrev BackendConfig := Config State Lock BackendCmd

/-- A bootstrapped instance with a new hub. -/
def initial (db : Database) (e2eeRequired : Int → Bool) (limits : ViewerLimits) : State :=
  ⟨HubState.new (fun _ => ∅) e2eeRequired limits, Store.new db⟩

/-! ## Schedules -/

namespace Sample

/-- Passwords are their own hashes. -/
def plain (hash password : String) : Bool := hash = password

def start : State := initial Account.Sample.instance₁ (fun _ => false) ⟨10, 10⟩

abbrev Moves := List (Machine.Move Input (Hub.Op ⊕ BackendOp))

def steps (i n : ℕ) (x : Input) : Moves := List.replicate n (.step i x)

def issue (token : ℕ) : Input where
  token := token
  expiry := 1000

def request (i : ℕ) (c : Call) : Moves := .start (.inr (.request c)) :: steps i 1 {}

/-- The owner logs in, as goroutine 0, up to the insertion of the session. -/
def ownerCompares : Moves :=
  .start (.inr (.login "owner" "owner" "generated")) :: steps 0 2 {}

/-- Account 2 registers with a link of the owner, as goroutines 0 and 1, which gives it a session
with the token 201. -/
def annaRegisters : Moves :=
  request 0 (.createLink 1 1 101 3600 (some 1) true) ++ request 1
    (.register "anna" "anna" "a" 101 201 1000)

def here (clients : List Client) : Input where
  hub := { serverIDs := [1], clients := clients }

end Sample

end Voxhold.Backend
