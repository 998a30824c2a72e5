/-
# Voxhold.Permissions.Operations — permission changes around the hub

The hub's machine beside the tables of `Permissions.Roles` and the clock. A change commits and then
calls `RefreshRolePermissions`, which holds `channelAccessMu`; the handlers of `voice.join` and
`stream.start` share it from the permission check to the admission. No lock spans commit and
refresh.
-/

import Voxhold.Hub.Operations
import Voxhold.Lib.Beside
import Voxhold.Permissions.Roles

namespace Voxhold.Permissions

open Voxhold.Lib Voxhold.Hub

structure Store where
  tables : Tables
  now : Int

def Store.allowed (t : Store) (serverID userID : Int) (bit : ℕ) : Bool :=
  t.tables.allowed t.now serverID userID bit

abbrev State := Beside HubState Store

inductive StoreCmd where
  | change (change : Change)
  /-- `RefreshRolePermissions`: the clients of the server, then for each of them its permissions,
  whether it is in voice in the server, and whether it publishes. -/
  | clients (serverID : Int)
  | rolePermissions (serverID : Int) (c : Client)
  | voiceRevoked (serverID : Int) (c : Client)
  | streamRevoked (serverID : Int) (c : Client)
  | isPublisher (serverID : Int) (c : Client)
  /-- The handler's `startStream`: the two halves of `CheckStreamAccess`. -/
  | checkVoiceAccess (opts : StartOptions) (req : StreamRequest)
  | checkStreamAccess (opts : StartOptions) (req : StreamRequest)
  | watchStream (opts : WatchOptions) (req : StreamRequest)
  | tick (seconds : ℕ)
deriving DecidableEq

abbrev PermissionCmd := Hub.Cmd ⊕ StoreCmd

abbrev PermissionInstr := Instr Hub.Lock PermissionCmd

/-- What a command is given from outside: the hub's choice, and whether the database carries out the
transaction of a change. -/
structure Input where
  hub : Choice := {}
  completes : Bool := true

def refreshRolePermissions (serverID : Int) : List PermissionInstr :=
  [.acquire .channelAccess .exclusive, .run (.inr (.clients serverID)), .release .channelAccess] ++
    called (Op.body (.refreshChannelAccess serverID))

/-- The round of its loop for one client. -/
def refreshClient (serverID : Int) (c : Client) : List PermissionInstr :=
  [.acquire (.mediaTransition c.userID) .exclusive, .run (.inr (.rolePermissions serverID c)),
    .release (.mediaTransition c.userID)]

/-- A stream of the hub, and the end of `LockChannelOperation`. -/
def admitStream (action : StreamAction) (req : StreamRequest) : List PermissionInstr :=
  called (Op.body (.stream action req)) ++ [.release .channelAccess]

/-- What the permissions read for a client lead to; an error counts as no permission. -/
def revoked (serverID : Int) (c : Client) : Option ℕ → List PermissionInstr
  | none => [.run (.inr (.voiceRevoked serverID c))]
  | some bits =>
    if bits &&& voiceBit = 0 then [.run (.inr (.voiceRevoked serverID c))]
    else if bits &&& streamBit = 0 then [.run (.inr (.streamRevoked serverID c))]
    else []

def Store.exec (x : Input) (s : State) : StoreCmd → Option (State × List PermissionInstr)
  | .change change =>
    match change.perform s.store.now s.store.tables with
    | .ok (some tables) =>
      if x.completes then
        some (⟨s.inner, { s.store with tables := tables }⟩, refreshRolePermissions change.serverID)
      else some (s, [])
    | _ => some (s, [])
  | .clients serverID =>
    if x.hub.clients.Perm (s.inner.registry.clientsByServer.keysAt serverID) then
      some (s, x.hub.clients.flatMap (refreshClient serverID))
    else none
  | .rolePermissions serverID c =>
    some (s, revoked serverID c
      (if x.hub.ok then s.store.tables.permissions s.store.now serverID c.userID else none))
  | .voiceRevoked serverID c =>
    some (s, if inServer (s.inner.media.voice.current c) serverID then
      called [.run (.media (.revokeVoice c serverID))] else [])
  | .streamRevoked serverID c =>
    some (s, if inServer (s.inner.media.voice.current c) serverID then
      [.run (.inr (.isPublisher serverID c))] else [])
  | .isPublisher _ c =>
    some (s, if s.inner.media.streams.isPublisher c then
      called [.run (.media (.leaveStream c))] else [])
  | .checkVoiceAccess opts req =>
    some (s, if 0 < req.serverID ∧ 0 < req.channelID ∧ x.hub.ok ∧
        s.store.allowed req.serverID req.client.userID voiceBit then
      [.run (.inr (.checkStreamAccess opts req))] else [.release .channelAccess])
  | .checkStreamAccess opts req =>
    some (s, if x.hub.ok ∧ s.store.allowed req.serverID req.client.userID streamBit then
      admitStream (.start opts) req else [.release .channelAccess])
  | .watchStream opts req =>
    some (s, if 0 < req.serverID ∧ 0 < req.channelID then admitStream (.watch opts) req
      else [.release .channelAccess])
  | .tick seconds => some (⟨s.inner, { s.store with now := s.store.now + seconds }⟩, [])

/-- `CheckVoiceAccess`, asked twice by the handler's `joinVoice`, admits only whom the view allows.
-/
def agrees (t : Store) (cmd : Hub.Cmd) (x : Input) : Bool :=
  match cmd with
  | .media (.request .channelAccess req) | .media (.request .channelAccessAgain req) =>
    !x.hub.ok || t.allowed req.serverID req.client.userID voiceBit
  | _ => true

inductive PermissionOp where
  | change (change : Change)
  /-- After a change of what a role may see of a channel. -/
  | refreshRolePermissions (serverID : Int)
  | startStream (opts : StartOptions) (req : StreamRequest)
  | watchStream (opts : WatchOptions) (req : StreamRequest)
  | tick (seconds : ℕ)

def PermissionOp.body : PermissionOp → List PermissionInstr
  | .change c => [.run (.inr (.change c))]
  | .refreshRolePermissions s => Permissions.refreshRolePermissions s
  | .startStream opts req =>
    [.acquire .channelAccess .shared, .run (.inr (.checkVoiceAccess opts req))]
  | .watchStream opts req => [.acquire .channelAccess .shared, .run (.inr (.watchStream opts req))]
  | .tick n => [.run (.inr (.tick n))]

def permissions : Extension hubMachine Store StoreCmd Input PermissionOp where
  choice := Input.hub
  agrees := fun _ => agrees
  note := fun _ _ _ t => t
  exec := fun cmd x s => Store.exec x s cmd
  body := PermissionOp.body

abbrev PermissionConfig := Config State Hub.Lock PermissionCmd

/-- What is started: joins and streams go through their handlers, and nobody's membership ends. -/
def Started : Hub.Op ⊕ PermissionOp → Prop
  | .inl (.joinVoiceWithDevice _) | .inl (.stream _ _) | .inl (.revokeUserFromServer _ _)
  | .inl (.revokeServer _) => False
  | _ => True

instance : DecidablePred Started := by
  intro op
  unfold Started
  split <;> infer_instance

def initial (servers : Client → Finset Int) (e2eeRequired : Int → Bool) (limits : ViewerLimits)
    (tables : Tables) (now : Int) : State :=
  ⟨HubState.new servers e2eeRequired limits, ⟨tables, now⟩⟩

end Voxhold.Permissions
