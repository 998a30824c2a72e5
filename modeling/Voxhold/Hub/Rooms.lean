/-
# Voxhold.Hub.Rooms — channel rooms and the clients' subscriptions

Who receives the events of a channel is stored twice: in the channel's room and in every client's
map of channels. The machine runs what writes them: `Subscribe`, `Unsubscribe`, `RemoveChannel` and
the registry's operations.
-/

import Voxhold.Hub.Discipline
import Voxhold.Lib.InFlight

namespace Voxhold.Hub.Rooms

open Voxhold.Lib

/-! ## Rooms and subscriptions -/

/-- A room object. A closed one is empty. -/
structure Room where
  clients : Finset Client
  closed : Bool
  cleared : closed = true → clients = ∅

namespace Room

def newRoom : Room where
  clients := ∅
  closed := false
  cleared := fun _ => rfl

/-- `room.add`; `none` where it returns false. -/
def add (room : Room) (c : Client) : Option Room :=
  if room.closed = true ∨ c ∈ room.clients then none
  else some ⟨insert c room.clients, false, by simp⟩

def remove (room : Room) (c : Client) : Room where
  clients := room.clients.erase c
  closed := room.closed
  cleared := fun hclosed => by simp [room.cleared hclosed]

/-- The room after `closeAndSnapshot`, which returns the clients it had. -/
def closeAndSnapshot (_ : Room) : Room where
  clients := ∅
  closed := true
  cleared := fun _ => rfl

theorem add_eq_some {room room' : Room} {c : Client} (h : room.add c = some room') :
    c ∉ room.clients ∧ room'.clients = insert c room.clients := by
  unfold add at h
  split at h
  · cases h
  · next hopen =>
    cases h
    exact ⟨fun hc => hopen (.inr hc), rfl⟩

end Room

structure Subscription where
  client : Client
  serverID : Int
  channelID : Int
deriving DecidableEq, Repr

structure State where
  registry : Registry
  readers : Nat
  heap : Int → Nat → Room
  nextRoom : Nat
  rooms : AList fun _ : Int => Nat
  subscriptions : Client → AList fun _ : Int => Int
  refreshed : Client → Finset Int

namespace State

variable (s : State)

def new (servers : Client → Finset Int) : State where
  registry := Registry.new servers
  readers := 0
  heap := fun _ _ => Room.newRoom
  nextRoom := 0
  rooms := ∅
  subscriptions := fun _ => ∅
  refreshed := fun _ => ∅

/-- The registry changes. Where a client's policy does, the earlier refreshes no longer count. -/
def setRegistry (r : Registry) : State :=
  { s with
    registry := r
    refreshed := fun c => if r.channelAccess c = s.registry.channelAccess c then s.refreshed c
      else ∅ }

def store (channelID : Int) (n : Nat) (room : Room) : State :=
  { s with heap := fun ch k => if ch = channelID ∧ k = n then room else s.heap ch k }

def addRoom (channelID : Int) : State :=
  { s.store channelID s.nextRoom Room.newRoom with
    nextRoom := s.nextRoom + 1
    rooms := s.rooms.insert channelID s.nextRoom }

def deleteRoom (channelID : Int) : State :=
  { s with rooms := s.rooms.erase channelID }

def addSubscription (sub : Subscription) : State :=
  { s with subscriptions := fun c => if c = sub.client
      then (s.subscriptions c).insert sub.channelID sub.serverID else s.subscriptions c }

def removeSubscription (c : Client) (channelID : Int) : State :=
  { s with subscriptions := fun d => if d = c
      then (s.subscriptions d).erase channelID else s.subscriptions d }

def subscriptionIDs (c : Client) : List Int :=
  (s.subscriptions c).keys

def subscriptionIDsForServer (c : Client) (serverID : Int) : List Int :=
  (s.subscriptions c).keys.filter fun ch => (s.subscriptions c).lookup ch = some serverID

def rLock : State :=
  { s with readers := s.readers + 1 }

def rUnlock : State :=
  { s with readers := s.readers - 1 }

def InRoom (c : Client) (channelID : Int) : Prop :=
  ∃ n, s.rooms.lookup channelID = some n ∧ c ∈ (s.heap channelID n).clients
deriving Decidable

end State

/-! ## Commands and operations -/

inductive SubscribeStage where
  | access
  | registered
  | done
  | getRoom
  | createRoom
  | add (n : Nat)
  | record
deriving DecidableEq, Repr

inductive UnsubscribeStage where
  | getRoom
  | remove (n : Nat)
  | forget
deriving DecidableEq, Repr

/-- Who unsubscribes: a request of the client, its `Unregister`, or an operation that holds
`channelAccessMu` exclusively. -/
inductive Origin where
  | request
  | unregister
  | revocation
deriving DecidableEq, Repr

inductive Cmd where
  | registry (cmd : RegistryCmd)
  | subscribe (stage : SubscribeStage) (sub : Subscription)
  | unsubscribe (stage : UnsubscribeStage) (origin : Origin) (c : Client) (channelID : Int)
  | unsubscribeAll (c : Client)
  | unsubscribeFromServer (c : Client) (serverID : Int)
  | refreshSubscriptions (c : Client) (serverID : Int)
  | recheck (c : Client) (channelID : Int)
  | removeRoom (channelID : Int)
  | closeRoom (channelID : Int) (n : Nat)
deriving DecidableEq

inductive Op where
  | register (c : Client)
  | unregister (c : Client)
  | addUserToServer (userID serverID : Int)
  | revokeUserFromServer (userID serverID : Int)
  | revokeServer (serverID : Int)
  | refreshChannelAccess (serverID : Int)
  | close
  | subscribe (sub : Subscription)
  | unsubscribe (c : Client) (channelID : Int)
  | removeChannel (channelID : Int)

abbrev RoomInstr := Instr Lock Cmd

/-- The order in which a loop meets a client's channels, beside the choices of the registry. -/
structure RoomChoice extends Choice where
  channelIDs : List Int := []

/-- The sections that hold `clientsMu` for writing. -/
def writesClients : RegistryCmd → Bool
  | .index _ | .detach _ | .removeClientServer _ _ _ | .addServer _ _ | .closeHub => true
  | _ => false

/-- What takes the place of an instruction pushed by a registry command. `Unregister` unsubscribes
after `leaveVoice`, `RefreshChannelAccess` after it has looked at the client's voice channel; the
media locks go with the voice parts. -/
def follow (cmd : RegistryCmd) : HubInstr → List RoomInstr
  | .run (.registry next) => [.run (.registry next)]
  | .run (.media (.leaveVoice c)) => [.run (.unsubscribeAll c)]
  | .run (.media (.refreshVoice c)) =>
    match cmd with
    | .refreshSnapshot s => [.run (.refreshSubscriptions c s)]
    | _ => []
  | _ => []

/-- What the revocations do after `removeClientServer`. -/
def afterwards : RegistryCmd → List RoomInstr
  | .removeClientServer c s false => [.run (.unsubscribeFromServer c s)]
  | _ => []

def pushes (cmd : RegistryCmd) (new : List HubInstr) : List RoomInstr :=
  new.flatMap (follow cmd) ++ afterwards cmd

namespace State

/-- `Subscribe`. From `registered` on it reads under `clientsMu`. -/
def execSubscribe (s : State) (sub : Subscription) : SubscribeStage → State × List RoomInstr
  | .access =>
    (s, if 0 < sub.serverID ∧ 0 < sub.channelID ∧
          s.registry.canAccessChannel sub.client sub.channelID = true then
        [.run (.subscribe .registered sub)]
      else [])
  | .registered =>
    if sub.client ∈ s.registry.clients ∧ s.registry.closed = false ∧
        sub.serverID ∈ s.registry.servers sub.client then
      (s.rLock, [.run (.subscribe .done sub)])
    else (s, [])
  | .done =>
    if sub.client ∈ s.registry.done then (s.rUnlock, [])
    else (s, [.run (.subscribe .getRoom sub)])
  | .getRoom =>
    (s, match s.rooms.lookup sub.channelID with
      | some n => [.run (.subscribe (.add n) sub)]
      | none => [.run (.subscribe .createRoom sub)])
  | .createRoom =>
    -- another `Subscribe` may have made the room meanwhile
    match s.rooms.lookup sub.channelID with
    | some n => (s, [.run (.subscribe (.add n) sub)])
    | none => (s.addRoom sub.channelID, [.run (.subscribe (.add s.nextRoom) sub)])
  | .add n =>
    match (s.heap sub.channelID n).add sub.client with
    | none => (s.rUnlock, [])
    | some room => (s.store sub.channelID n room, [.run (.subscribe .record sub)])
  | .record => ((s.addSubscription sub).rUnlock, [])

def execUnsubscribe (s : State) (origin : Origin) (c : Client) (channelID : Int) :
    UnsubscribeStage → State × List RoomInstr
  | .getRoom =>
    (s, if channelID ≤ 0 then []
      else match s.rooms.lookup channelID with
        | none => [.run (.unsubscribe .forget origin c channelID)]
        | some n => [.run (.unsubscribe (.remove n) origin c channelID)])
  | .remove n =>
    (s.store channelID n ((s.heap channelID n).remove c),
      [.run (.unsubscribe .forget origin c channelID)])
  | .forget => (s.removeSubscription c channelID, [])

def exec (x : RoomChoice) (s : State) : Cmd → Option (State × List RoomInstr)
  | .registry cmd =>
    if writesClients cmd = true ∧ 0 < s.readers then none
    else (s.registry.exec x.toChoice cmd).map fun out => (s.setRegistry out.1, pushes cmd out.2)
  | .subscribe stage sub => some (s.execSubscribe sub stage)
  | .unsubscribe stage origin c ch => some (s.execUnsubscribe origin c ch stage)
  | .unsubscribeAll c =>
    if x.channelIDs.Perm (s.subscriptionIDs c) then
      some (s, x.channelIDs.map fun ch => .run (.unsubscribe .getRoom .unregister c ch))
    else none
  | .unsubscribeFromServer c srv =>
    if x.channelIDs.Perm (s.subscriptionIDsForServer c srv) then
      some (s, x.channelIDs.map fun ch => .run (.unsubscribe .getRoom .revocation c ch))
    else none
  | .refreshSubscriptions c srv =>
    if x.channelIDs.Perm (s.subscriptionIDsForServer c srv) then
      some ({ s with refreshed := fun d => if d = c then insert srv (s.refreshed d)
          else s.refreshed d },
        x.channelIDs.map fun ch => .run (.recheck c ch))
    else none
  | .recheck c ch =>
    some (s, if s.registry.canAccessChannel c ch = true then []
      else [.run (.unsubscribe .getRoom .revocation c ch)])
  | .removeRoom ch =>
    if ch ≤ 0 then some (s, [])
    else match s.rooms.lookup ch with
      | none => some (s, [])
      | some n => some (s.deleteRoom ch, [.run (.closeRoom ch n)])
  | .closeRoom ch n =>
    if Lists x.clients (s.heap ch n).clients then
      some (s.store ch n (s.heap ch n).closeAndSnapshot,
        x.clients.map fun c => .run (.unsubscribe .forget .revocation c ch))
    else none

end State

def Op.body : Op → List RoomInstr
  | .register c =>
    [.acquire .channelAccess .shared, .run (.registry (.load c)), .release .channelAccess]
  | .unregister c => [.run (.registry (.closeClient c))]
  | .addUserToServer u srv =>
    [.acquire .channelAccess .shared, .run (.registry (.addUserSnapshot u srv)),
      .release .channelAccess]
  | .revokeUserFromServer u srv =>
    [.acquire .channelAccess .exclusive, .run (.registry (.revokeUserSnapshot u srv)),
      .release .channelAccess]
  | .revokeServer srv =>
    [.acquire .channelAccess .exclusive, .run (.registry (.revokeServerSnapshot srv)),
      .release .channelAccess]
  | .refreshChannelAccess srv =>
    [.acquire .channelAccess .exclusive, .run (.registry (.refreshSnapshot srv)),
      .release .channelAccess]
  | .close => [.run (.registry .closeHub)]
  | .subscribe sub =>
    [.acquire .channelAccess .shared, .run (.subscribe .access sub), .release .channelAccess]
  | .unsubscribe c ch => [.run (.unsubscribe .getRoom .request c ch)]
  | .removeChannel ch =>
    [.acquire .channelAccess .exclusive, .run (.removeRoom ch), .release .channelAccess]

def machine : Machine State Lock Cmd RoomChoice Op where
  exec := fun cmd x s => s.exec x cmd
  body := Op.body

abbrev RoomConfig := Config State Lock Cmd

end Voxhold.Hub.Rooms
