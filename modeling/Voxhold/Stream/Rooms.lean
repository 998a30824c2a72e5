/-
# Voxhold.Stream.Rooms — the rooms and sessions of the stream SFU

`stream.Manager` and its rooms, which are objects. `StartWithRenditions` lists the room, sets up the
publisher without the mutex and registers it at the end; `WatchRenditionForPublisher` reserves a
place, sets up a peer connection and takes the place.
-/

import Voxhold.Lib.Goroutine
import Voxhold.Lib.Seats
import Voxhold.Stream.Contract

namespace Voxhold.Stream

open Voxhold.Lib Option
open Voxhold.Hub (maxChannelPublishers)

/-! ## Rooms, sessions, the manager -/

/-- A `*room`. -/
abbrev RoomID := Nat

inductive SessionRole where
  | sessionPublisher
  | sessionViewer
deriving DecidableEq, Repr

/-- A `*session`, with the number of the object: two sessions of one connection differ in it. -/
structure Session where
  object : Nat
  room : RoomID
  connectionID : String
  userID : Int
  serverID : Int
  channelID : Int
  role : SessionRole
  selectedRenditionID : String
deriving DecidableEq, Repr

/-- `seats` are the viewers and the reservations for viewers. -/
structure Room where
  serverID : Int
  publisherConnectionID : String
  id : Int
  renditions : List Rendition
  publisher : Option Session
  seats : Seats String Session

namespace Room

variable (r : Room)

@[grind] def new (serverID : Int) (publisherConnectionID : String) (id : Int)
    (renditions : List Rendition) : Room :=
  ⟨serverID, publisherConnectionID, id, renditions, none, Seats.none⟩

@[grind] def viewers : AList fun _ : String => Session :=
  r.seats.taken

@[grind] def reservations : Nat :=
  r.seats.reserved

def Serves (serverID channelID : Int) : Prop :=
  r.serverID = serverID ∧ r.id = channelID
deriving Decidable

def hasRendition (id : String) : Prop :=
  ∃ rendition ∈ r.renditions, rendition.id = id
deriving Decidable

def reserveViewer (maximum : Nat) : Option Room :=
  (r.seats.reserve maximum).map fun seats => { r with seats := seats }

@[grind] def cancelViewerReservation : Room :=
  { r with seats := r.seats.cancel }

@[grind] def addViewer (value : Session) : Room :=
  { r with seats := r.seats.take value.connectionID value }

@[grind] def removeViewer (connectionID : String) : Room :=
  { r with seats := r.seats.vacate connectionID }

/-- `none` is the refusal: the room has a publisher. -/
def setPublisher (value : Session) : Option Room :=
  if r.publisher.isSome then none else some { r with publisher := some value }

/-- The room without its sessions, and these. Reservations stay until whoever made them gives them
back. -/
def closeSnapshot : Room × List Session :=
  ({ r with publisher := none, seats := { r.seats with taken := ∅ } },
    r.publisher.toList ++ r.viewers.entries.map Sigma.snd)

end Room

structure Manager where
  heap : RoomID → Room
  nextObject : Nat
  rooms : AList fun _ : String => RoomID
  sessions : AList fun _ : String => Session
  closed : Bool

structure StartRequest where
  connectionID : String
  userID : Int
  serverID : Int
  channelID : Int
  codec : String
  hasAudio : Bool
  renditions : List Rendition
deriving DecidableEq, Repr

structure WatchRequest where
  connectionID : String
  userID : Int
  serverID : Int
  channelID : Int
  publisherConnectionID : String
  selectedRenditionID : String
deriving DecidableEq, Repr

namespace Manager

variable (m : Manager)

def new : Manager :=
  ⟨fun _ => Room.new 0 "" 0 [], 0, ∅, ∅, false⟩

/-- A room object changes. -/
@[grind] def store (room : RoomID) (value : Room) : Manager :=
  { m with heap := fun r => if r = room then value else m.heap r }

/-- How many rooms are listed for a channel. -/
def publishers (serverID channelID : Int) : Nat :=
  m.rooms.entries.countP fun e => (m.heap e.2).Serves serverID channelID

/-- A new room is listed for its publisher. -/
@[grind] def addRoom (req : StartRequest) : Manager :=
  { m.store m.nextObject
      (Room.new req.serverID req.connectionID req.channelID req.renditions) with
    rooms := m.rooms.insert req.connectionID m.nextObject
    nextObject := m.nextObject + 1 }

/-- The first critical section of `StartWithRenditions`; `none` is a closed manager or
`ErrPublisherLimit`. -/
def insertRoom (req : StartRequest) : Option Manager :=
  if m.closed then none
  else if maxChannelPublishers ≤ m.publishers req.serverID req.channelID then none
  else some (m.addRoom req)

@[grind] def newPublisher (req : StartRequest) (room : RoomID) : Session :=
  ⟨m.nextObject, room, req.connectionID, req.userID, req.serverID, req.channelID,
    .sessionPublisher, ""⟩

@[grind] def newViewer (req : WatchRequest) (room : RoomID) : Session :=
  ⟨m.nextObject, room, req.connectionID, req.userID, req.serverID, req.channelID, .sessionViewer,
    req.selectedRenditionID⟩

/-- `setPublisher` on the room, with the session it is called with. -/
def setPublisher (req : StartRequest) (room : RoomID) : Option (Manager × Session) :=
  ((m.heap room).setPublisher (m.newPublisher req room)).map fun value =>
    ({ m.store room value with nextObject := m.nextObject + 1 }, m.newPublisher req room)

/-- The last critical section of `StartWithRenditions`. -/
def registerPublisher (req : StartRequest) (room : RoomID) (value : Session) : Option Manager :=
  if m.closed ∨ m.rooms.lookup req.connectionID ≠ some room then none
  else some { m with sessions := m.sessions.insert req.connectionID value }

def removeRoom (publisherConnectionID : String) (room : RoomID) : Manager :=
  if m.rooms.lookup publisherConnectionID = some room then
    { m with rooms := m.rooms.erase publisherConnectionID }
  else m

/-- The listed room of a publisher or, without one, that of the smallest publisher ID. -/
def findRoomLocked (serverID channelID : Int) (publisherID : String) : Option RoomID :=
  if publisherID ≠ "" then
    (m.rooms.lookup publisherID).filter fun room => (m.heap room).Serves serverID channelID
  else
    m.rooms.entries.foldl (fun selected e =>
      if (m.heap e.2).Serves serverID channelID ∧ ∀ room ∈ selected,
          (m.heap e.2).publisherConnectionID < (m.heap room).publisherConnectionID
      then some e.2 else selected) none

@[grind] def addViewer (req : WatchRequest) (room : RoomID) : Manager :=
  { m.store room ((m.heap room).addViewer (m.newViewer req room)) with
    sessions := m.sessions.insert req.connectionID (m.newViewer req room)
    nextObject := m.nextObject + 1 }

/-- The last critical section of `WatchRenditionForPublisher`; `none` is `ErrStreamNotFound`. -/
def registerViewer (req : WatchRequest) (room : RoomID) : Option Manager :=
  if m.closed ∨ m.rooms.lookup (m.heap room).publisherConnectionID ≠ some room then none
  else some (m.addViewer req room)

@[grind] def closeRoom (room : RoomID) : Manager :=
  { m.store room (m.heap room).closeSnapshot.1 with
    rooms := m.rooms.erase (m.heap room).publisherConnectionID
    sessions := eraseAll m.sessions ((m.heap room).closeSnapshot.2.map Session.connectionID) }

@[grind] def removeViewer (connectionID : String) (room : RoomID) : Manager :=
  { m.store room ((m.heap room).removeViewer connectionID) with
    sessions := m.sessions.erase connectionID }

def leave (connectionID : String) (expected : Option Session) : Manager :=
  if connectionID = "" then m
  else
    match m.sessions.lookup connectionID with
    | none => m
    | some value =>
      if expected.any (· ≠ value) then m
      else
        match value.role with
        | .sessionPublisher => m.closeRoom value.room
        | .sessionViewer => m.removeViewer connectionID value.room

/-- `Close` drops the maps; the room objects stay as they are. -/
def close : Manager :=
  { m with closed := true, sessions := ∅, rooms := ∅ }

end Manager

/-! ## The program -/

/-- What a goroutine in one of the manager's methods still has to do. -/
inductive Cmd where
  /-- The checks of the arguments, and `Leave`. -/
  | start (req : StartRequest)
  | insertRoom (req : StartRequest)
  /-- `NewPeerConnection`, the transceivers and their codec preferences. -/
  | createPublisherPeer (req : StartRequest) (room : RoomID)
  | setPublisher (req : StartRequest) (room : RoomID)
  | registerPublisher (req : StartRequest) (room : RoomID) (value : Session)
  | removeRoom (req : StartRequest) (room : RoomID)
  | createOffer (req : StartRequest)
  /-- The checks of the arguments, and `Leave`. -/
  | watch (req : WatchRequest)
  | findRoom (req : WatchRequest)
  | reserveViewer (req : WatchRequest) (room : RoomID)
  | createViewerPeer (req : WatchRequest) (room : RoomID)
  | registerViewer (req : WatchRequest) (room : RoomID)
  | cancelViewerReservation (req : WatchRequest) (room : RoomID)
  | synchronizeViewerTracks (req : WatchRequest)
  | leave (connectionID : String)
  | failSession (value : Session)
  | close
deriving DecidableEq

inductive Op where
  | startWithRenditions (req : StartRequest)
  | watchRenditionForPublisher (req : WatchRequest)
  | leave (connectionID : String)
  | failSession (value : Session)
  | close

/-- The checks at the head of `StartWithRenditions`. -/
def StartRequest.Valid (req : StartRequest) : Prop :=
  req.connectionID ≠ "" ∧ 0 < req.userID ∧ 0 < req.serverID ∧ 0 < req.channelID ∧
    mediaAccepts streamVideoCodecDescriptors req.codec req.renditions = true
deriving Decidable

/-- The checks at the head of `WatchRenditionForPublisher`. -/
def WatchRequest.Valid (req : WatchRequest) : Prop :=
  req.connectionID ≠ "" ∧ 0 < req.userID ∧ 0 < req.serverID ∧ 0 < req.channelID ∧
    req.selectedRenditionID ≠ ""
deriving Decidable

/-- What each command does; the choice says whether a fallible step succeeds. -/
def exec (maxViewers : Nat) : Cmd → Bool → Manager → Manager × List (Instr Empty Cmd)
  | .start req, _, m =>
    if req.Valid then (m.leave req.connectionID none, [.run (.insertRoom req)]) else (m, [])
  | .insertRoom req, _, m =>
    match m.insertRoom req with
    | some m' => (m', [.run (.createPublisherPeer req m.nextObject)])
    | none => (m, [])
  | .createPublisherPeer req room, ok, m =>
    (m, if ok then [.run (.setPublisher req room)] else [.run (.removeRoom req room)])
  | .setPublisher req room, _, m =>
    match m.setPublisher req room with
    | some (m', value) => (m', [.run (.registerPublisher req room value)])
    | none => (m, [.run (.removeRoom req room)])
  | .registerPublisher req room value, _, m =>
    match m.registerPublisher req room value with
    | some m' => (m', [.run (.createOffer req)])
    | none => (m, [.run (.removeRoom req room)])
  | .removeRoom req room, _, m => (m.removeRoom req.connectionID room, [])
  | .createOffer req, ok, m => (m, if ok then [] else [.run (.leave req.connectionID)])
  | .watch req, _, m =>
    if req.Valid then (m.leave req.connectionID none, [.run (.findRoom req)]) else (m, [])
  | .findRoom req, _, m =>
    match m.findRoomLocked req.serverID req.channelID req.publisherConnectionID with
    | some room =>
      (m, if m.closed = false ∧ (m.heap room).hasRendition req.selectedRenditionID
        then [.run (.reserveViewer req room)] else [])
    | none => (m, [])
  | .reserveViewer req room, _, m =>
    match (m.heap room).reserveViewer maxViewers with
    | some value => (m.store room value, [.run (.createViewerPeer req room)])
    | none => (m, [])
  | .createViewerPeer req room, ok, m =>
    (m, if ok then [.run (.registerViewer req room)] else
      [.run (.cancelViewerReservation req room)])
  | .registerViewer req room, _, m =>
    match m.registerViewer req room with
    | some m' => (m', [.run (.synchronizeViewerTracks req)])
    | none => (m, [.run (.cancelViewerReservation req room)])
  | .cancelViewerReservation _ room, _, m =>
    (m.store room (m.heap room).cancelViewerReservation, [])
  | .synchronizeViewerTracks req, ok, m =>
    (m, if ok then [] else [.run (.leave req.connectionID)])
  | .leave connectionID, _, m => (m.leave connectionID none, [])
  | .failSession value, _, m => (m.leave value.connectionID (some value), [])
  | .close, _, m => (m.close, [])

def machine (maxViewers : Nat) : Machine Manager Empty Cmd Bool Op where
  exec c ok m := some (exec maxViewers c ok m)
  body
    | .startWithRenditions req => [.run (.start req)]
    | .watchRenditionForPublisher req => [.run (.watch req)]
    | .leave connectionID => [.run (.leave connectionID)]
    | .failSession value => [.run (.failSession value)]
    | .close => [.run .close]

/-! ## What each write does to a room -/

namespace Room

theorem reserveViewer_eq_some {r value : Room} {maximum : Nat}
    (h : r.reserveViewer maximum = some value) :
    value.publisherConnectionID = r.publisherConnectionID ∧ value.publisher = r.publisher ∧
      value.viewers = r.viewers ∧ value.reservations = r.reservations + 1 ∧
      (value.serverID = r.serverID ∧ value.id = r.id) ∧ value.seats.used ≤ maximum := by
  obtain ⟨seats, hseats, rfl⟩ := map_eq_some_iff.mp h
  have hused : seats.used ≤ maximum := Seats.used_of_reserve hseats
  obtain ⟨-, rfl⟩ := Seats.reserve_eq_some hseats
  exact ⟨rfl, rfl, rfl, rfl, ⟨rfl, rfl⟩, hused⟩

theorem closeSnapshot_room (r : Room) :
    r.closeSnapshot.1.publisherConnectionID = r.publisherConnectionID ∧
      r.closeSnapshot.1.reservations = r.reservations ∧
      (r.closeSnapshot.1.serverID = r.serverID ∧ r.closeSnapshot.1.id = r.id) ∧
      ∀ conn, r.closeSnapshot.1.viewers.lookup conn = none :=
  ⟨rfl, rfl, ⟨rfl, rfl⟩, fun _ => rfl⟩

theorem mem_closeSnapshot {r : Room} {v : Session} : v ∈ r.closeSnapshot.2 ↔
    r.publisher = some v ∨ ∃ conn, r.viewers.lookup conn = some v := by
  unfold closeSnapshot
  rw [List.mem_append, mem_toList, List.mem_map]
  refine or_congr mem_def ⟨?_, ?_⟩
  · rintro ⟨⟨conn, w⟩, hmem, rfl⟩
    exact ⟨conn, AList.mem_lookup_iff.mpr hmem⟩
  · rintro ⟨conn, hconn⟩
    exact ⟨⟨conn, v⟩, AList.mem_lookup_iff.mp hconn, rfl⟩

end Room

theorem SessionRole.publisher_or_viewer (role : SessionRole) :
    role = .sessionPublisher ∨ role = .sessionViewer := by
  cases role
  · exact .inl rfl
  · exact .inr rfl

namespace Manager

variable {m m' : Manager} {req : StartRequest} {room : RoomID} {v : Session}

theorem heap_store (m : Manager) (room : RoomID) (value : Room) (r : RoomID) :
    (m.store room value).heap r = if r = room then value else m.heap r :=
  rfl

theorem leave_eq (m : Manager) (conn : String) (expected : Option Session) :
    m.leave conn expected = m ∨ ∃ v, m.sessions.lookup conn = some v ∧
      (v.role = .sessionPublisher ∧ m.leave conn expected = m.closeRoom v.room ∨
        v.role = .sessionViewer ∧ m.leave conn expected = m.removeViewer conn v.room) := by
  unfold leave
  split
  · exact .inl rfl
  · split
    · exact .inl rfl
    · next v hv =>
      split
      · exact .inl rfl
      · refine .inr ⟨v, hv, ?_⟩
        cases v.role with
        | sessionPublisher => exact .inl ⟨rfl, rfl⟩
        | sessionViewer => exact .inr ⟨rfl, rfl⟩

theorem lookup_leave (m : Manager) {conn : String} (hconn : conn ≠ "")
    (hpublisher : ∀ v, m.sessions.lookup conn = some v → v.role = .sessionPublisher →
      (m.heap v.room).publisher = some v ∧ v.connectionID = conn) :
    (m.leave conn none).sessions.lookup conn = none := by
  unfold leave
  rw [if_neg hconn]
  cases hv : m.sessions.lookup conn with
  | none => exact hv
  | some v =>
    simp only [any_none, Bool.false_eq_true, if_false]
    cases hrole : v.role with
    | sessionViewer => exact AList.lookup_erase _ _
    | sessionPublisher =>
      obtain ⟨hpub, hid⟩ := hpublisher v hv hrole
      show (eraseAll m.sessions _).lookup conn = none
      rw [lookup_eraseAll, if_pos]
      exact List.mem_map.mpr ⟨v, Room.mem_closeSnapshot.mpr (.inl hpub), hid⟩

theorem setPublisher_eq_some (h : m.setPublisher req room = some (m', v)) :
    (m.heap room).publisher = none ∧ v = m.newPublisher req room ∧
      m' = { m.store room { m.heap room with publisher := some v } with
        nextObject := m.nextObject + 1 } := by
  obtain ⟨value, hvalue, heq⟩ := map_eq_some_iff.mp h
  cases heq
  unfold Room.setPublisher at hvalue
  split at hvalue
  · cases hvalue
  · next hnone =>
    cases hvalue
    exact ⟨by simpa using hnone, rfl, rfl⟩

theorem insertRoom_eq_some (h : m.insertRoom req = some m') :
    m.closed = false ∧ m.publishers req.serverID req.channelID < maxChannelPublishers ∧
      m' = m.addRoom req := by
  unfold insertRoom at h
  split at h
  · cases h
  · next hopen =>
    split at h
    · cases h
    · next hlimit =>
      exact ⟨by simpa using hopen, Nat.lt_of_not_le hlimit, (some.inj h).symm⟩

theorem registerViewer_eq_some {wreq : WatchRequest} (h : m.registerViewer wreq room = some m') :
    m.closed = false ∧ m.rooms.lookup (m.heap room).publisherConnectionID = some room ∧
      m' = m.addViewer wreq room := by
  unfold registerViewer at h
  split at h
  · cases h
  · next hopen =>
    rw [not_or, Bool.not_eq_true, not_not] at hopen
    exact ⟨hopen.1, hopen.2, (some.inj h).symm⟩

theorem registerPublisher_eq_some (h : m.registerPublisher req room v = some m') :
    m.closed = false ∧ m.rooms.lookup req.connectionID = some room ∧
      m' = { m with sessions := m.sessions.insert req.connectionID v } := by
  unfold registerPublisher at h
  split at h
  · cases h
  · next hopen =>
    rw [not_or, Bool.not_eq_true, not_not] at hopen
    exact ⟨hopen.1, hopen.2, (some.inj h).symm⟩

end Manager

/-! ## What a command can do -/

/-- The commands that may end their goroutine with nothing done. -/
inductive Cmd.MayEnd : Cmd → Prop
  | start (req) : MayEnd (.start req)
  | insertRoom (req) : MayEnd (.insertRoom req)
  | createOffer (req) : MayEnd (.createOffer req)
  | watch (req) : MayEnd (.watch req)
  | findRoom (req) : MayEnd (.findRoom req)
  | reserveViewer (req room) : MayEnd (.reserveViewer req room)
  | synchronizeViewerTracks (req) : MayEnd (.synchronizeViewerTracks req)

/-- The commands of a start that hand on to the next, or to the removal of the room. -/
inductive Cmd.HandsOn : Cmd → Cmd → Prop
  | peer (req room) : HandsOn (.createPublisherPeer req room) (.setPublisher req room)
  | noPeer (req room) : HandsOn (.createPublisherPeer req room) (.removeRoom req room)
  | taken (req room) : HandsOn (.setPublisher req room) (.removeRoom req room)
  | unlisted (req room value) : HandsOn (.registerPublisher req room value) (.removeRoom req room)

/-- The commands of a watch that hand on to the next, or to the return of the reservation. -/
inductive Cmd.PassesOn : Cmd → Cmd → Prop
  | peer (req room) : PassesOn (.createViewerPeer req room) (.registerViewer req room)
  | noPeer (req room) : PassesOn (.createViewerPeer req room) (.cancelViewerReservation req room)
  | gone (req room) : PassesOn (.registerViewer req room) (.cancelViewerReservation req room)

/-- **What a command can do**: the manager it leaves, and the command that follows it in its
goroutine. -/
inductive Step (maxViewers : Nat) (m : Manager) : Cmd → Manager → Option Cmd → Prop
  | ends {c : Cmd} (h : c.MayEnd) : Step maxViewers m c m none
  | handsOn {c d : Cmd} (h : c.HandsOn d) : Step maxViewers m c m (some d)
  | passesOn {c d : Cmd} (h : c.PassesOn d) : Step maxViewers m c m (some d)
  | start {req : StartRequest} (h : req.Valid) :
    Step maxViewers m (.start req) (m.leave req.connectionID none) (some (.insertRoom req))
  | insertRoom {req : StartRequest} (hopen : m.closed = false)
    (hlimit : m.publishers req.serverID req.channelID < maxChannelPublishers) :
    Step maxViewers m (.insertRoom req) (m.addRoom req)
      (some (.createPublisherPeer req m.nextObject))
  | setPublisher {req : StartRequest} {room : RoomID} {m' : Manager} {value : Session}
    (h : m.setPublisher req room = some (m', value)) :
    Step maxViewers m (.setPublisher req room) m' (some (.registerPublisher req room value))
  | registerPublisher {req : StartRequest} {room : RoomID} {m' : Manager} {value : Session}
    (h : m.registerPublisher req room value = some m') :
    Step maxViewers m (.registerPublisher req room value) m' (some (.createOffer req))
  | removeRoom (req : StartRequest) (room : RoomID) :
    Step maxViewers m (.removeRoom req room) (m.removeRoom req.connectionID room) none
  | noOffer (req : StartRequest) :
    Step maxViewers m (.createOffer req) m (some (.leave req.connectionID))
  | watch {req : WatchRequest} (h : req.Valid) :
    Step maxViewers m (.watch req) (m.leave req.connectionID none) (some (.findRoom req))
  | findRoom {req : WatchRequest} {room : RoomID}
    (h : m.findRoomLocked req.serverID req.channelID req.publisherConnectionID = some room) :
    Step maxViewers m (.findRoom req) m (some (.reserveViewer req room))
  | reserveViewer {req : WatchRequest} {room : RoomID} {value : Room}
    (h : (m.heap room).reserveViewer maxViewers = some value) :
    Step maxViewers m (.reserveViewer req room) (m.store room value)
      (some (.createViewerPeer req room))
  | registerViewer {req : WatchRequest} {room : RoomID} (hopen : m.closed = false)
    (hlisted : m.rooms.lookup (m.heap room).publisherConnectionID = some room) :
    Step maxViewers m (.registerViewer req room) (m.addViewer req room)
      (some (.synchronizeViewerTracks req))
  | cancelViewerReservation (req : WatchRequest) (room : RoomID) :
    Step maxViewers m (.cancelViewerReservation req room)
      (m.store room (m.heap room).cancelViewerReservation) none
  | noTracks (req : WatchRequest) :
    Step maxViewers m (.synchronizeViewerTracks req) m (some (.leave req.connectionID))
  | leave (connectionID : String) :
      Step maxViewers m (.leave connectionID) (m.leave connectionID none) none
  | failSession (value : Session) :
    Step maxViewers m (.failSession value) (m.leave value.connectionID (some value)) none
  | close : Step maxViewers m .close m.close none

theorem exec_step (maxViewers : Nat) (c : Cmd) (ok : Bool) (m : Manager) :
    ∃ after : Option Cmd, Step maxViewers m c (exec maxViewers c ok m).1 after ∧
      (exec maxViewers c ok m).2 = after.toList.map .run := by
  cases c with
  | start req =>
    simp only [exec]
    split
    · next hreq => exact ⟨_, .start hreq, rfl⟩
    · exact ⟨_, .ends (.start req), rfl⟩
  | insertRoom req =>
    simp only [exec]
    split
    · next hinsert =>
      obtain ⟨hopen, hlimit, rfl⟩ := Manager.insertRoom_eq_some hinsert
      exact ⟨_, .insertRoom hopen hlimit, rfl⟩
    · exact ⟨_, .ends (.insertRoom req), rfl⟩
  | createPublisherPeer req room =>
    cases ok with
    | true => exact ⟨_, .handsOn (.peer req room), rfl⟩
    | false => exact ⟨_, .handsOn (.noPeer req room), rfl⟩
  | setPublisher req room =>
    simp only [exec]
    split
    · next hset => exact ⟨_, .setPublisher hset, rfl⟩
    · exact ⟨_, .handsOn (.taken req room), rfl⟩
  | registerPublisher req room value =>
    simp only [exec]
    split
    · next hregister => exact ⟨_, .registerPublisher hregister, rfl⟩
    · exact ⟨_, .handsOn (.unlisted req room value), rfl⟩
  | removeRoom req room => exact ⟨_, .removeRoom req room, rfl⟩
  | createOffer req =>
    cases ok with
    | true => exact ⟨_, .ends (.createOffer req), rfl⟩
    | false => exact ⟨_, .noOffer req, rfl⟩
  | watch req =>
    simp only [exec]
    split
    · next hreq => exact ⟨_, .watch hreq, rfl⟩
    · exact ⟨_, .ends (.watch req), rfl⟩
  | findRoom req =>
    simp only [exec]
    split
    · next hfind =>
      split
      · exact ⟨_, .findRoom hfind, rfl⟩
      · exact ⟨_, .ends (.findRoom req), rfl⟩
    · exact ⟨_, .ends (.findRoom req), rfl⟩
  | reserveViewer req room =>
    simp only [exec]
    split
    · next hreserve => exact ⟨_, .reserveViewer hreserve, rfl⟩
    · exact ⟨_, .ends (.reserveViewer req room), rfl⟩
  | createViewerPeer req room =>
    cases ok with
    | true => exact ⟨_, .passesOn (.peer req room), rfl⟩
    | false => exact ⟨_, .passesOn (.noPeer req room), rfl⟩
  | registerViewer req room =>
    simp only [exec]
    split
    · next hregister =>
      obtain ⟨hopen, hlisted, rfl⟩ := Manager.registerViewer_eq_some hregister
      exact ⟨_, .registerViewer hopen hlisted, rfl⟩
    · exact ⟨_, .passesOn (.gone req room), rfl⟩
  | cancelViewerReservation req room => exact ⟨_, .cancelViewerReservation req room, rfl⟩
  | synchronizeViewerTracks req =>
    cases ok with
    | true => exact ⟨_, .ends (.synchronizeViewerTracks req), rfl⟩
    | false => exact ⟨_, .noTracks req, rfl⟩
  | leave connectionID => exact ⟨_, .leave connectionID, rfl⟩
  | failSession value => exact ⟨_, .failSession value, rfl⟩
  | close => exact ⟨_, .close, rfl⟩

theorem exec_rule {P : Manager → Multiset Cmd → Prop} {maxViewers : Nat} {c : Cmd} {m : Manager}
    {R : Multiset Cmd} (ok : Bool)
    (h : ∀ m' after, Step maxViewers m c m' after → P m' (after.elim R (· ::ₘ R))) :
    P (exec maxViewers c ok m).1 ((cmds (exec maxViewers c ok m).2 : Multiset Cmd) + R) := by
  obtain ⟨after, hstep, hnext⟩ := exec_step maxViewers c ok m
  rw [hnext]
  cases after with
  | none =>
    rw [toList_none, List.map_nil, pushed_nil]
    exact h _ _ hstep
  | some d =>
    rw [toList_some, List.map_singleton, pushed_run]
    exact h _ _ hstep

end Voxhold.Stream
