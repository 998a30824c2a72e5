/-
# Voxhold.Voice.Rooms — the rooms and sessions of the voice SFU

`voice.Manager` and its rooms. `Join` reserves a place under the mutex, sets up a peer connection
without it, and takes the place or gives the reservation back. Rooms are objects: a `Join` keeps the
one it reserved a place in and compares it with the one listed later.
-/

import Voxhold.Lib.Goroutine
import Voxhold.Lib.NestedMap
import Voxhold.Lib.Seats

namespace Voxhold.Voice

open Voxhold.Lib

/-! ## Rooms, sessions, the manager -/

/-- `Config.MaxParticipants` as `NewManager` admits it. -/
structure MaxParticipants where
  value : Nat
  atLeast : 2 ≤ value
  atMost : value ≤ 100

def defaultMaxParticipants : MaxParticipants :=
  ⟨32, by decide, by decide⟩

abbrev RoomID := Nat

structure JoinRequest where
  connectionID : String
  userID : Int
  serverID : Int
  channelID : Int
  selfMute : Bool
  selfDeaf : Bool
deriving DecidableEq, Repr

/-- A `*session`, with the number of the object: two sessions of one connection differ in it. -/
structure Session extends JoinRequest where
  object : Nat
  room : RoomID
deriving DecidableEq, Repr

structure Room where
  id : Int
  seats : Seats String Session

namespace Room

variable (r : Room)

@[grind] def new (id : Int) : Room :=
  ⟨id, Seats.none⟩

@[grind] def sessions : AList fun _ : String => Session :=
  r.seats.taken

@[grind] def reservations : Nat :=
  r.seats.reserved

def reserve (maxParticipants : Nat) : Option Room :=
  (r.seats.reserve maxParticipants).map fun seats => { r with seats := seats }

@[grind] def cancelReservation : Room :=
  { r with seats := r.seats.cancel }

@[grind] def addSession (value : Session) : Room :=
  { r with seats := r.seats.take value.connectionID value }

@[grind] def removeSession (connectionID : String) : Room :=
  { r with seats := r.seats.vacate connectionID }

def Empty : Prop :=
  r.seats.Vacant
deriving Decidable

end Room

structure Manager where
  heap : RoomID → Room
  nextObject : Nat
  rooms : AList fun _ : Int => RoomID
  sessions : AList fun _ : String => Session
  closed : Bool

namespace Manager

variable (m : Manager)

def new : Manager :=
  ⟨fun _ => Room.new 0, 0, ∅, ∅, false⟩

/-- A room object changes. -/
@[grind] def store (room : RoomID) (value : Room) : Manager :=
  { m with heap := fun r => if r = room then value else m.heap r }

/-- A new room is listed for a channel. -/
@[grind] def addRoom (channelID : Int) : Manager :=
  { m.store m.nextObject (Room.new channelID) with
    rooms := m.rooms.insert channelID m.nextObject
    nextObject := m.nextObject + 1 }

/-- `voiceRoom.reserve` on a room listed in the manager; `none` is `ErrRoomFull`. -/
def reserveIn (maxParticipants : Nat) (room : RoomID) : Manager × Option RoomID :=
  match (m.heap room).reserve maxParticipants with
  | some value => (m.store room value, some room)
  | none => (m, none)

/-- The first critical section of `Join`: the room in which a place is reserved, if one is. -/
def reserve (maxParticipants : Nat) (channelID : Int) : Manager × Option RoomID :=
  if m.closed then (m, none)
  else
    match m.rooms.lookup channelID with
    | some room => m.reserveIn maxParticipants room
    | none => (m.addRoom channelID).reserveIn maxParticipants m.nextObject

@[grind] def newSession (req : JoinRequest) (room : RoomID) : Session :=
  { req with object := m.nextObject, room := room }

/-- The new session takes the reserved place. -/
@[grind] def addSession (req : JoinRequest) (room : RoomID) : Manager :=
  { m.store room ((m.heap room).addSession (m.newSession req room)) with
    sessions := m.sessions.insert req.connectionID (m.newSession req room)
    nextObject := m.nextObject + 1 }

/-- The second critical section of `Join`; `none` where the manager has been closed meanwhile. -/
def insert (req : JoinRequest) (room : RoomID) : Option Manager :=
  if m.closed then none else some (m.addSession req room)

/-- `delete(m.rooms, channelID)`, where the room is empty and still the one listed. -/
def deleteIfEmpty (channelID : Int) (room : RoomID) : Manager :=
  if (m.heap room).Empty ∧ m.rooms.lookup channelID = some room then
    { m with rooms := m.rooms.erase channelID }
  else m

/-- A session is taken out of the manager and of its room. -/
@[grind] def detach (connectionID : String) (value : Session) : Manager :=
  { m.store value.room ((m.heap value.room).removeSession connectionID) with
    sessions := m.sessions.erase connectionID }

def leave (connectionID : String) (expected : Option Session) : Manager :=
  if connectionID = "" then m
  else
    match m.sessions.lookup connectionID with
    | none => m
    | some value =>
      if expected.any (· ≠ value) then m
      else (m.detach connectionID value).deleteIfEmpty value.channelID value.room

/-- `Close` drops the maps; the room objects stay as they are. -/
def close : Manager :=
  { m with closed := true, sessions := ∅, rooms := ∅ }

end Manager

/-! ## The program -/

/-- What a goroutine in `Join`, `Leave`, `failSession` or `Close` still has to do. -/
inductive Cmd where
  /-- The checks of the arguments, and `Leave`. -/
  | join (req : JoinRequest)
  | reserve (req : JoinRequest)
  /-- `NewPeerConnection` and the two transceivers. -/
  | createPeer (req : JoinRequest) (room : RoomID)
  | insert (req : JoinRequest) (room : RoomID)
  | cancelReservation (req : JoinRequest) (room : RoomID)
  /-- `removeRoomIfEmpty` without and with the mutex. -/
  | checkEmpty (req : JoinRequest) (room : RoomID)
  | removeRoomIfEmpty (req : JoinRequest) (room : RoomID)
  /-- `synchronizeTracks(true)`: the first offer. -/
  | synchronizeTracks (req : JoinRequest)
  | leave (connectionID : String)
  | failSession (value : Session)
  | close
deriving DecidableEq

inductive Op where
  | join (req : JoinRequest)
  | leave (connectionID : String)
  | failSession (value : Session)
  | close

/-- `JoinRequest`s that pass the checks at the head of `Join`. -/
def JoinRequest.Valid (req : JoinRequest) : Prop :=
  req.connectionID ≠ "" ∧ 0 < req.userID ∧ 0 < req.serverID ∧ 0 < req.channelID
deriving Decidable

/-- The deferred clean-up of a `Join` that gives its reservation back. -/
def abort (req : JoinRequest) (room : RoomID) : List (Instr Empty Cmd) :=
  [.run (.cancelReservation req room)]

/-- What each command does; the choice says whether a fallible step succeeds. -/
def exec (maxParticipants : Nat) : Cmd → Bool → Manager → Manager × List (Instr Empty Cmd)
  | .join req, _, m =>
    if req.Valid then (m.leave req.connectionID none, [.run (.reserve req)]) else (m, [])
  | .reserve req, _, m =>
    match m.reserve maxParticipants req.channelID with
    | (m', some room) => (m', [.run (.createPeer req room)])
    | (m', none) => (m', [])
  | .createPeer req room, ok, m => (m, if ok then [.run (.insert req room)] else abort req room)
  | .insert req room, _, m =>
    match m.insert req room with
    | some m' => (m', [.run (.synchronizeTracks req)])
    | none => (m, abort req room)
  | .cancelReservation req room, _, m =>
    (m.store room (m.heap room).cancelReservation, [.run (.checkEmpty req room)])
  | .checkEmpty req room, _, m =>
    (m, if (m.heap room).Empty then [.run (.removeRoomIfEmpty req room)] else [])
  | .removeRoomIfEmpty req room, _, m => (m.deleteIfEmpty req.channelID room, [])
  | .synchronizeTracks req, ok, m => (m, if ok then [] else [.run (.leave req.connectionID)])
  | .leave connectionID, _, m => (m.leave connectionID none, [])
  | .failSession value, _, m => (m.leave value.connectionID (some value), [])
  | .close, _, m => (m.close, [])

def machine (limit : MaxParticipants) : Machine Manager Empty Cmd Bool Op where
  exec c ok m := some (exec limit.value c ok m)
  body
    | .join req => [.run (.join req)]
    | .leave connectionID => [.run (.leave connectionID)]
    | .failSession value => [.run (.failSession value)]
    | .close => [.run .close]

/-! ## What each write does to a room -/

namespace Room

variable {r : Room} (conn conn' : String) (v : Session)

@[grind →] theorem not_empty_of_lookup {conn : String} {v : Session}
    (h : r.sessions.lookup conn = some v) : ¬r.Empty :=
  Seats.not_vacant_of_lookup conn v h

theorem not_empty_addSession : ¬(r.addSession v).Empty :=
  Seats.not_vacant_of_lookup v.connectionID v (AList.lookup_insert _)

theorem empty_new (id : Int) : (new id).Empty :=
  ⟨rfl, rfl⟩

@[grind →] theorem not_empty_of_reservations (h : 0 < r.reservations) : ¬r.Empty :=
  fun hempty => absurd hempty.2 (Nat.ne_of_gt h)

@[grind →] theorem Empty.reservations (h : r.Empty) : r.reservations = 0 :=
  h.2

theorem reserve_eq_some {value : Room} {max : Nat} (h : r.reserve max = some value) :
    value.id = r.id ∧ value.sessions = r.sessions ∧ value.reservations = r.reservations + 1 ∧
      value.seats.used ≤ max := by
  obtain ⟨seats, hseats, rfl⟩ := Option.map_eq_some_iff.mp h
  have hused : seats.used ≤ max := Seats.used_of_reserve hseats
  obtain ⟨-, rfl⟩ := Seats.reserve_eq_some hseats
  exact ⟨rfl, rfl, rfl, hused⟩

theorem Empty.reserve_ne_none {max : Nat} (h : r.Empty) (hmax : 0 < max) :
    r.reserve max ≠ none := by
  intro hnone
  exact Seats.Vacant.reserve_ne_none h hmax (Option.map_eq_none_iff.mp hnone)

theorem Empty.cancelReservation (h : r.Empty) : r.cancelReservation.Empty :=
  Seats.Vacant.cancel h

theorem Empty.removeSession (h : r.Empty) : (r.removeSession conn).Empty :=
  Seats.Vacant.vacate conn h

end Room

/-! ## What each write does to the manager -/

namespace Manager

variable (m : Manager) (room r : RoomID) (value : Room) (conn conn' : String) (v : Session)

theorem leave_eq (expected : Option Session) : m.leave conn expected = m ∨
    ∃ v, m.sessions.lookup conn = some v ∧
      m.leave conn expected = (m.detach conn v).deleteIfEmpty v.channelID v.room := by
  unfold leave
  split
  · exact .inl rfl
  · split
    · exact .inl rfl
    · next v hv =>
      split
      · exact .inl rfl
      · exact .inr ⟨v, hv, rfl⟩

theorem lookup_leave (hconn : conn ≠ "") : (m.leave conn none).sessions.lookup conn = none := by
  unfold leave
  rw [if_neg hconn]
  split
  · next hnone => exact hnone
  · next v hv =>
    have hdetached : (m.detach conn v).sessions.lookup conn = none := AList.lookup_erase _ _
    show ((m.detach conn v).deleteIfEmpty v.channelID v.room).sessions.lookup conn = none
    unfold deleteIfEmpty
    split <;> exact hdetached

theorem reserve_cases {max : Nat} (hmax : 0 < max) (ch : Int) : m.reserve max ch = (m, none) ∨
    ∃ n room value, m.closed = false ∧
      (n = m ∧ m.rooms.lookup ch = some room ∨
        n = m.addRoom ch ∧ m.rooms.lookup ch = none ∧ room = m.nextObject) ∧
      (n.heap room).reserve max = some value ∧
      m.reserve max ch = (n.store room value, some room) := by
  unfold reserve
  split
  · exact .inl rfl
  · next hopen =>
    have hopen : m.closed = false := by simpa using hopen
    split
    · next room hroom =>
      unfold reserveIn
      cases hvalue : (m.heap room).reserve max with
      | some value => exact .inr ⟨m, room, value, hopen, .inl ⟨rfl, hroom⟩, hvalue, rfl⟩
      | none => exact .inl rfl
    · next hnone =>
      unfold reserveIn
      have hnew : ((m.addRoom ch).heap m.nextObject).Empty := by
        show (if m.nextObject = m.nextObject then Room.new ch else _).Empty
        rw [if_pos rfl]
        exact Room.empty_new ch
      cases hvalue : ((m.addRoom ch).heap m.nextObject).reserve max with
      | some value => exact .inr ⟨_, _, value, hopen, .inr ⟨rfl, hnone, rfl⟩, hvalue, rfl⟩
      | none => exact absurd hvalue (hnew.reserve_ne_none hmax)

end Manager

end Voxhold.Voice
