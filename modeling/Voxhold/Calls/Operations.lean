/-
# Voxhold.Calls.Operations — encrypted calls and the devices they are made with

The hub's voice channels and the direct calls, beside the tables `e2ee_device_keys` and
`conversation_call_members`. A device is checked when a call is joined; a registration or revocation
commits FIRST and then runs `RevalidateVoiceE2EE` and `RevokeInvalidCallDevices`.
-/

import Voxhold.E2ee.Devices
import Voxhold.Hub.Operations
import Voxhold.Lib.Beside

namespace Voxhold.Calls

open Voxhold.Lib Voxhold.Hub Voxhold.E2ee

/-! ## Direct calls -/

/-- A row of `conversation_call_members`: a lease on a place in a call. -/
structure CallMember where
  conversationID : Int
  userID : Int
  sessionID : String
  e2eeDeviceID : Option String
  heartbeatAt : Int
deriving DecidableEq

/-- `user_id INTEGER NOT NULL UNIQUE`. -/
abbrev CallMembers := Keyed CallMember Int CallMember.userID

/-- A request to join a call; `replace` takes over from another session. -/
structure CallJoin where
  conversationID : Int
  userID : Int
  sessionID : String
  replace : Bool
  e2eeDeviceID : String
deriving DecidableEq

inductive CallError where
  | invalid
  | conflict
  /-- `CanSend` or the database. -/
  | refused
deriving DecidableEq, Repr

/-- What `joinCall` and `leaveCall` learn from outside the two tables: whether the user may write
into the conversation, before the transaction and in it, whether it is the user's own notes, whether
the database carries the transaction out, and the time. -/
structure Answers where
  canSend : Bool := true
  saved : Bool := false
  canSendTransaction : Bool := true
  completes : Bool := true
  now : Int := 0

/-- `NULLIF(?,'')`. -/
def nullIfEmpty (deviceID : String) : Option String :=
  if deviceID = "" then none else some deviceID

def CallJoin.row (req : CallJoin) (now : Int) : CallMember :=
  ⟨req.conversationID, req.userID, req.sessionID, nullIfEmpty req.e2eeDeviceID, now⟩

/-- `INSERT … ON CONFLICT(conversation_id,user_id) DO UPDATE`. -/
def CallMembers.upsert (t : CallMembers) (req : CallJoin) (now : Int) : CallMembers :=
  Keyed.insertNew (t.update (fun r => r.conversationID = req.conversationID ∧ r.userID = req.userID)
    (fun r => { r with
      sessionID := req.sessionID
      e2eeDeviceID := nullIfEmpty req.e2eeDeviceID
      heartbeatAt := now })
    fun _ => rfl) (req.row now)

/-- `DELETE … WHERE heartbeat_at<?`, of leases that were not renewed for 45 seconds. -/
def CallMembers.expire (t : CallMembers) (now : Int) : CallMembers :=
  t.delete fun r => r.heartbeatAt < now - 45

/-- `joinCall`, one write transaction. -/
def joinCall (a : Answers) (keys : DeviceKeys) (t : CallMembers) (req : CallJoin) :
    Except CallError CallMembers :=
  if req.sessionID.utf8ByteSize < 16 ∨ 64 < req.sessionID.utf8ByteSize then .error .invalid
  else if !a.canSend then .error .refused
  else if a.saved then .error .invalid
  else if !a.canSendTransaction then .error .refused
  else if req.e2eeDeviceID ≠ "" ∧ ¬keys.hasActive req.userID req.e2eeDeviceID then .error .invalid
  else
    let t := CallMembers.expire t a.now
    let previous := t.find req.userID
    if previous.any fun r => r.conversationID ≠ req.conversationID then .error .conflict
    else if (previous.any fun r => r.sessionID ≠ "" ∧ r.sessionID ≠ req.sessionID) ∧
      !req.replace then .error .conflict
    else if !a.completes then .error .refused
    else .ok (CallMembers.upsert t req a.now)

/-- `leaveCall`, one statement. -/
def leaveCall (a : Answers) (t : CallMembers) (conversationID userID : Int) (sessionID : String) :
    CallMembers :=
  if a.canSend ∧ a.completes then
    t.delete fun r => r.conversationID = conversationID ∧ r.userID = userID ∧
      r.sessionID = sessionID
  else t

/-- `RevokeInvalidCallDevices`: leases with a device that is not active go. -/
def revokeInvalidCallDevices (keys : DeviceKeys) (t : CallMembers) (userID : Int) : CallMembers :=
  t.delete fun r => r.userID = userID ∧ r.e2eeDeviceID.any fun d => !keys.hasActive r.userID d

/-! ## The machine -/

/-- The two tables. -/
structure Store where
  keys : DeviceKeys
  members : CallMembers

abbrev State := Beside HubState Store

/-- One transaction or statement each. -/
inductive StoreCmd where
  | devices (call : E2ee.Call)
  | revokeInvalidCallDevices (userID : Int)
  /-- `log.Printf("revoke invalid e2ee call devices: %v", err)`: nothing else is done about the
  error. -/
  | logRevokeError (userID : Int)
  | joinCall (req : CallJoin)
  | leaveCall (conversationID userID : Int) (sessionID : String)
  /-- A user's lease goes with the user's account, membership or conversation. -/
  | removeMember (userID : Int)
deriving DecidableEq

abbrev CallInstr := Instr Hub.Lock (Hub.Cmd ⊕ StoreCmd)

/-- What a command is given from outside: the hub's choice, what the database does with the
statements of a device call, and the answers for the direct calls. -/
structure Input where
  hub : Choice := {}
  statements : E2ee.Outcome := fun _ => some 0
  answers : Answers := {}

/-- The hook that runs after a change of devices has committed. -/
def onDevicesChanged (userID : Int) : List CallInstr :=
  called (Op.body (.revalidateVoiceE2EE userID)) ++ [.run (.inr (.revokeInvalidCallDevices userID))]

def Store.exec (x : Input) (s : State) : StoreCmd → Option (State × List CallInstr)
  | .devices call =>
    match call.exec x.statements s.store.keys with
    | .ok keys => some (⟨s.inner, { s.store with keys := keys }⟩, onDevicesChanged call.userID)
    | .error _ => some (s, [])
  | .revokeInvalidCallDevices u =>
    -- the context of three seconds may end before the statement gets the database
    if x.answers.completes then
      let members := revokeInvalidCallDevices s.store.keys s.store.members u
      some (⟨s.inner, { s.store with members := members }⟩, [])
    else some (s, [.run (.inr (.logRevokeError u))])
  | .logRevokeError _ => some (s, [])
  | .joinCall req =>
    match joinCall x.answers s.store.keys s.store.members req with
    | .ok members => some (⟨s.inner, { s.store with members := members }⟩, [])
    | .error _ => some (s, [])
  | .leaveCall conversationID u sessionID =>
    let members := leaveCall x.answers s.store.members conversationID u sessionID
    some (⟨s.inner, { s.store with members := members }⟩, [])
  | .removeMember u =>
    some (⟨s.inner, { s.store with members := s.store.members.delete fun r => r.userID = u }⟩, [])

/-- A device that a query reports as active is active: `DeviceActive` without an error. -/
def reports (keys : DeviceKeys) (ok : Bool) (userID : Int) (deviceID : String) : Bool :=
  !ok || deviceID = "" || keys.deviceActive userID deviceID

/-- The hub's questions about devices are answered from the table. -/
def agrees (h : HubState) (t : Store) (cmd : Hub.Cmd) (x : Input) : Bool :=
  match cmd with
  | .media (.request .encryption req) | .media (.join .device _ req) =>
    reports t.keys x.hub.ok req.client.userID req.e2eeDeviceID
  | .media (.revalidateDevice c) =>
    (h.media.voice.current c).all fun p => reports t.keys x.hub.ok c.userID p.e2eeDeviceID
  | _ => true

inductive CallOp where
  | devices (call : E2ee.Call)
  | joinCall (req : CallJoin)
  | leaveCall (conversationID userID : Int) (sessionID : String)
  | removeMember (userID : Int)

def CallOp.body : CallOp → List CallInstr
  | .devices call => [.run (.inr (.devices call))]
  | .joinCall req => [.run (.inr (.joinCall req))]
  | .leaveCall conversationID u sessionID => [.run (.inr (.leaveCall conversationID u sessionID))]
  | .removeMember u => [.run (.inr (.removeMember u))]

/-- The hub with the commands of the store beside its own. -/
def calls : Extension hubMachine Store StoreCmd Input CallOp where
  choice := Input.hub
  agrees := agrees
  note := fun _ _ _ t => t
  exec := fun cmd x s => Store.exec x s cmd
  body := CallOp.body

abbrev CallConfig := Config State Hub.Lock (Hub.Cmd ⊕ StoreCmd)

/-- A new hub over the two tables. -/
def initial (servers : Client → Finset Int) (e2eeRequired : Int → Bool) (limits : ViewerLimits)
    (keys : DeviceKeys) (members : CallMembers) : State :=
  ⟨HubState.new servers e2eeRequired limits, ⟨keys, members⟩⟩

namespace Sample

def laptop : String := "00000000000000000000000000000001"

def phone : String := "00000000000000000000000000000002"

def keys : DeviceKeys where
  rows := [⟨7, laptop, [], 0, none, 0⟩, ⟨7, phone, [], 0, none, 0⟩]
  unique := by decide

/-- All channels require encryption. -/
def start : State := initial (fun _ => {1}) (fun _ => true) ⟨10, 10⟩ keys Keyed.empty

abbrev Moves := List (Machine.Move Input (Hub.Op ⊕ CallOp))

def steps (i n : ℕ) (ok : Bool) : Moves :=
  List.replicate n (.step i { hub := { serverIDs := [1], ok := ok } })

/-- Account 7 connects and joins channel 5 with the laptop, as goroutines 0 and 1, and a direct call
with the phone, as goroutine 2. -/
def joining : Moves :=
  .start (.inl (.register Hub.Sample.client)) :: steps 0 5 true ++
  .start (.inl (.joinVoice { Hub.Sample.request with e2eeDeviceID := laptop })) ::
    steps 1 20 true ++
  .start (.inr (.joinCall ⟨3, 7, "session-of-phone-1", false, phone⟩)) :: steps 2 1 true

end Sample

end Voxhold.Calls
