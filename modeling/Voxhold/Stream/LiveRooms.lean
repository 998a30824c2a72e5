/-
# Voxhold.Stream.LiveRooms — every stream session belongs to a live room

A room can be watched before its publisher is set up. When the setup fails, `removeRoom` takes the
room off the list and nothing else: a viewer keeps a session in it (`viewer_stranded`). Where no
failed setup finds a viewer in its room (`NobodyWatching`), every session belongs to a live room
(`stream_sessions_live`).
-/

import Voxhold.Lib.InFlight
import Voxhold.Stream.RoomLimits

namespace Voxhold.Stream

open Voxhold.Lib Multiset
open Voxhold.Hub (maxChannelPublishers)

/-! ## The operations in flight -/

namespace Cmd

variable {b : Cmd} {p : String} {r : RoomID}

/-- The connection whose start or watch is in flight with this command next. -/
def inFlight : Cmd → Option String
  | .insertRoom req | .createPublisherPeer req _ | .setPublisher req _ | .registerPublisher req _ _
  | .removeRoom req _ | .createOffer req | .findRoom req | .reserveViewer req _
  | .createViewerPeer req _ | .registerViewer req _ | .cancelViewerReservation req _
  | .synchronizeViewerTracks req => some req.connectionID
  | _ => none

/-- The connection of a start or watch that has no session yet. -/
def entering : Cmd → Option String
  | .insertRoom req | .createPublisherPeer req _ | .setPublisher req _ | .registerPublisher req _ _
  | .removeRoom req _ | .findRoom req | .reserveViewer req _ | .createViewerPeer req _
  | .registerViewer req _ | .cancelViewerReservation req _ => some req.connectionID
  | _ => none

/-- The publisher and the room of a start that has not registered its session. -/
def building : Cmd → Option (String × RoomID)
  | .createPublisherPeer req room | .setPublisher req room | .registerPublisher req room _
  | .removeRoom req room => some (req.connectionID, room)
  | _ => none

/-- The session that a start has made the publisher of its room and is about to register. -/
def built : Cmd → Option (String × RoomID × Session)
  | .registerPublisher req room value => some (req.connectionID, room, value)
  | _ => none

/-- The connection of a start or watch that has not begun. -/
def starting : Cmd → Option String
  | .start req | .watch req => some req.connectionID
  | _ => none

@[grind →] theorem entering_of_building (h : b.building = some (p, r)) : b.entering = some p := by
  cases b <;> simp_all [building, entering]

@[grind →] theorem room_of_building (h : b.building = some (p, r)) : b.room = some r := by
  cases b <;> simp_all [building, room]

@[grind →] theorem building_of_built {v : Session}
    (h : b.built = some (p, r, v)) : b.building = some (p, r) := by
  cases b <;> simp_all [building, built]

theorem inFlight_of_entering {conn : String} (h : b.entering = some conn) :
    b.inFlight = some conn := by
  cases b <;> simp_all [entering, inFlight]

end Cmd

/-- The number of starts and watches in flight for the connection. -/
def requests (S : Multiset Cmd) (connectionID : String) : Nat :=
  S.countP fun b => b.inFlight = some connectionID

/-! ## The invariant -/

namespace Manager

variable (m : Manager)

/-- The session's room is listed for its publisher, and the session is that publisher or one of the
viewers. -/
structure Live (v : Session) : Prop where
  listed : m.rooms.lookup (m.heap v.room).publisherConnectionID = some v.room
  publisher : v.role = .sessionPublisher → (m.heap v.room).publisher = some v ∧
    (m.heap v.room).publisherConnectionID = v.connectionID
  viewer : v.role = .sessionViewer → (m.heap v.room).viewers.lookup v.connectionID = some v

/-- The maps of the manager and the rooms agree. -/
structure Coherent : Prop where
  listed : ∀ p r, m.rooms.lookup p = some r →
    r < m.nextObject ∧ (m.heap r).publisherConnectionID = p
  attached : ∀ conn v, m.sessions.lookup conn = some v → v.connectionID = conn ∧ m.Live v
  seated : ∀ p r conn v, m.rooms.lookup p = some r → (m.heap r).viewers.lookup conn = some v →
    m.sessions.lookup conn = some v ∧ v.room = r ∧ v.role = .sessionViewer
  shut : m.closed = true → (∀ p, m.rooms.lookup p = none) ∧ ∀ conn, m.sessions.lookup conn = none

/-- What a pending command knows of the manager. -/
structure Meets (b : Cmd) : Prop where
  entering : ∀ conn, b.entering = some conn → m.sessions.lookup conn = none
  building : ∀ p r, b.building = some (p, r) → (m.heap r).publisherConnectionID = p
  built : ∀ p r v, b.built = some (p, r, v) → (m.heap r).publisher = some v ∧
    v.connectionID = p ∧ v.room = r ∧ v.role = .sessionPublisher

/-- The room's publisher is registered. -/
def Owned (p : String) (r : RoomID) : Prop :=
  ∃ v, m.sessions.lookup p = some v ∧ v.role = .sessionPublisher ∧ v.room = r

/-- What all of them know: a connection has one start or watch in flight, and a listed room has a
publisher, registered or on the way. -/
structure Served (S : Multiset Cmd) : Prop where
  meets : ∀ b ∈ S, m.Meets b
  once : ∀ conn, requests S conn ≤ 1
  owned : ∀ p r, m.rooms.lookup p = some r → m.Owned p r ∨ ∃ b ∈ S, b.building = some (p, r)

variable {m} {room : RoomID} {value : Room} {conn : String} {v : Session}

namespace Coherent

section

variable (h : m.Coherent)
include h

theorem store (howner : value.publisherConnectionID = (m.heap room).publisherConnectionID)
    (hpublisher : value.publisher = (m.heap room).publisher)
    (hviewers : value.viewers = (m.heap room).viewers) : (m.store room value).Coherent := by
  obtain ⟨hl, hatt, hseat, hshut⟩ := h
  constructor <;> grind [Live]

theorem addRoom {req : StartRequest} (hopen : m.closed = false)
    (hnone : m.rooms.lookup req.connectionID = none) : (m.addRoom req).Coherent := by
  have hempty : ∀ conn, AList.lookup conn (Seats.none : Seats String Session).taken = none :=
    fun _ => rfl
  obtain ⟨hl, hatt, hseat, hshut⟩ := h
  constructor <;> grind [Live]

theorem setPublisher {req : StartRequest} {m' : Manager}
    (hset : m.setPublisher req room = some (m', v)) : m'.Coherent := by
  obtain ⟨hnone, -, rfl⟩ := setPublisher_eq_some hset
  obtain ⟨hl, hatt, hseat, hshut⟩ := h
  constructor <;> grind [Live]

theorem registerPublisher {req : StartRequest} {m' : Manager}
    (hregister : m.registerPublisher req room v = some m')
    (hnone : m.sessions.lookup req.connectionID = none)
    (hconn : v.connectionID = req.connectionID) (hv : v.room = room)
    (hrole : v.role = .sessionPublisher) (hpublisher : (m.heap room).publisher = some v) :
    m'.Coherent := by
  obtain ⟨hopen, hlisted, rfl⟩ := registerPublisher_eq_some hregister
  obtain ⟨hl, hatt, hseat, hshut⟩ := h
  refine ⟨hl, ?_, ?_, ?_⟩ <;> grind [Live]

theorem addViewer {req : WatchRequest} (hopen : m.closed = false)
    (hlisted : m.rooms.lookup (m.heap room).publisherConnectionID = some room)
    (hnone : m.sessions.lookup req.connectionID = none) : (m.addViewer req room).Coherent := by
  obtain ⟨hl, hatt, hseat, hshut⟩ := h
  constructor <;> grind [Live]

section

variable (hv : m.sessions.lookup conn = some v)
include hv

theorem removeViewer : (m.removeViewer conn v.room).Coherent := by
  obtain ⟨hl, hatt, hseat, hshut⟩ := h
  constructor <;> grind [Live]

theorem mem_snapshot_iff (hrole : v.role = .sessionPublisher) (c : String) :
    c ∈ (m.heap v.room).closeSnapshot.2.map Session.connectionID ↔
      ∃ w, m.sessions.lookup c = some w ∧ w.room = v.room := by
  obtain ⟨hconn, hlive⟩ := h.attached conn v hv
  rw [List.mem_map]
  constructor
  · rintro ⟨w, hw, rfl⟩
    rcases Room.mem_closeSnapshot.mp hw with hpub | ⟨c, hc⟩
    · rw [(hlive.publisher hrole).1] at hpub
      cases hpub
      exact ⟨v, hconn ▸ hv, rfl⟩
    · obtain ⟨hw, hroom, -⟩ := h.seated _ _ c w hlive.listed hc
      rw [(h.attached c w hw).1]
      exact ⟨w, hw, hroom⟩
  · rintro ⟨w, hw, hroom⟩
    obtain ⟨hconn, hwlive⟩ := h.attached c w hw
    refine ⟨w, Room.mem_closeSnapshot.mpr ?_, hconn⟩
    rw [← hroom]
    rcases w.role.publisher_or_viewer with hrole | hrole
    · exact .inl (hwlive.publisher hrole).1
    · exact .inr ⟨_, hwlive.viewer hrole⟩

theorem closeRoom (hrole : v.role = .sessionPublisher) : (m.closeRoom v.room).Coherent := by
  have hsnapshot := h.mem_snapshot_iff hv hrole
  have hroom := (m.heap v.room).closeSnapshot_room
  obtain ⟨hl, hatt, hseat, hshut⟩ := h
  constructor <;> grind [Live]

end

theorem removeRoom {req : StartRequest} (hnone : m.sessions.lookup req.connectionID = none)
    (hviewers : m.rooms.lookup req.connectionID = some room → (m.heap room).viewers.keys = []) :
    (m.removeRoom req.connectionID room).Coherent := by
  unfold Manager.removeRoom
  split
  · next hlisted =>
    have hempty : ∀ conn, (m.heap room).viewers.lookup conn = none := by
      intro conn
      rw [AList.lookup_eq_none, AList.mem_keys, hviewers hlisted]
      exact List.not_mem_nil
    have hroles := fun w : Session => w.role.publisher_or_viewer
    obtain ⟨hl, hatt, hseat, hshut⟩ := h
    constructor <;> grind [Live]
  · exact h

theorem leave (conn : String) (expected : Option Session) : (m.leave conn expected).Coherent := by
  rcases m.leave_eq conn expected with heq | ⟨v, hv, ⟨hrole, heq⟩ | ⟨-, heq⟩⟩
  · rw [heq]
    exact h
  · rw [heq]
    exact h.closeRoom hv hrole
  · rw [heq]
    exact h.removeViewer hv

end

theorem close (m : Manager) : m.close.Coherent where
  listed p r hr := by cases hr
  attached conn v hv := by cases hv
  seated p r conn v hr := by cases hr
  shut _ := ⟨fun _ => rfl, fun _ => rfl⟩

end Coherent

/-! ## The operations in flight and the manager -/

section Pending

variable {m' : Manager} {b b' : Cmd} {R : Multiset Cmd} {req : StartRequest} {wreq : WatchRequest}

theorem Meets.frame (h : m.Meets b)
    (hsessions : ∀ conn, b.entering = some conn → m.sessions.lookup conn = none →
      m'.sessions.lookup conn = none) (howner : ∀ r, b.room = some r →
      (m'.heap r).publisherConnectionID = (m.heap r).publisherConnectionID)
    (hpublisher : ∀ p r v, b.built = some (p, r, v) → (m.heap r).publisher = some v →
      (m'.heap r).publisher = some v) : m'.Meets b where
  entering conn hconn := hsessions conn hconn (h.entering conn hconn)
  building p r hb := by
    rw [howner r (Cmd.room_of_building hb)]
    exact h.building p r hb
  built p r v hb := by
    obtain ⟨hpub, hfields⟩ := h.built p r v hb
    exact ⟨hpublisher p r v hb hpub, hfields⟩

theorem Served.entering_ne (h : m.Served (b ::ₘ R)) (conn : String) (hb : b.inFlight = some conn) :
    ∀ b' ∈ R, b'.entering ≠ some conn := by
  intro b' hb' hentering
  exact Serial.ne_of_mem h.once hb hb' (Cmd.inFlight_of_entering hentering)

namespace Served

theorem leave (h : m.Served R) (hm : m.Coherent) (conn : String) (expected : Option Session) :
    (m.leave conn expected).Served R := by
  rcases m.leave_eq conn expected with heq | ⟨v, hv, ⟨hrole, heq⟩ | ⟨hrole, heq⟩⟩
  · rw [heq]
    exact h
  · rw [heq]
    have hsnapshot := hm.mem_snapshot_iff hv hrole
    have hroom := (m.heap v.room).closeSnapshot_room
    obtain ⟨hconn, hlive⟩ := hm.attached conn v hv
    obtain ⟨hpublisher, howner⟩ := hlive.publisher hrole
    have hlisted := hm.listed
    obtain ⟨hmeets, honce, hown⟩ := h
    refine ⟨fun b hb => (hmeets b hb).frame ?sessions ?owner ?publisher, honce, ?owned⟩
    case publisher =>
      -- the leaving publisher is registered, the one that is being built is not
      have hentering := (hmeets b hb).entering
      have hbuilt := (hmeets b hb).built
      grind
    all_goals grind [Owned]
  · rw [heq]
    obtain ⟨hmeets, honce, hown⟩ := h
    refine ⟨fun b hb => (hmeets b hb).frame ?_ ?_ ?_, honce, ?_⟩ <;> grind [Owned]

section

variable (h : m.Served (b ::ₘ R))
include h

theorem replace (hflight : b'.inFlight = b.inFlight) (hnew : m'.Meets b')
    (hframe : ∀ c ∈ R, m.Meets c → m'.Meets c)
    (howned : ∀ p r, m'.rooms.lookup p = some r → b'.building = some (p, r) ∨ m'.Owned p r ∨
      m.rooms.lookup p = some r ∧ b.building ≠ some (p, r) ∧ (m.Owned p r → m'.Owned p r)) :
    m'.Served (b' ::ₘ R) where
  meets := forall_mem_cons.mpr
    ⟨hnew, fun c hc => hframe c hc (h.meets c (mem_cons_of_mem hc))⟩
  once := Serial.replace h.once hflight
  owned p r hr := by
    rcases howned p r hr with hb | hold | ⟨hlisted, hb, hkeep⟩
    · exact .inr ⟨b', mem_cons_self _ _, hb⟩
    · exact .inl hold
    · refine (h.owned p r hlisted).imp hkeep fun hbuilder => ?_
      obtain ⟨c, hc, hbuilding⟩ := exists_mem_rest hbuilder hb
      exact ⟨c, mem_cons_of_mem hc, hbuilding⟩

theorem finish (hframe : ∀ c ∈ R, m.Meets c → m'.Meets c)
    (howned : ∀ p r, m'.rooms.lookup p = some r →
      m.rooms.lookup p = some r ∧ b.building ≠ some (p, r) ∧ (m.Owned p r → m'.Owned p r)) :
    m'.Served R where
  meets c hc := hframe c hc (h.meets c (mem_cons_of_mem hc))
  once := Serial.drop h.once
  owned p r hr := by
    obtain ⟨hlisted, hb, hkeep⟩ := howned p r hr
    exact (h.owned p r hlisted).imp hkeep fun hbuilder => exists_mem_rest hbuilder hb

theorem watching (hflight : b'.inFlight = b.inFlight)
    (hentering : b'.entering = b.entering) (hb : b.building = none) (hb' : b'.building = none)
    (hframe : ∀ c ∈ R, m.Meets c → m'.Meets c) (hrooms : m'.rooms = m.rooms)
    (hsessions : m'.sessions = m.sessions) : m'.Served (b' ::ₘ R) := by
  have hnone := (h.meets b (by simp)).entering
  refine h.replace hflight ⟨?entering, ?building, ?built⟩ hframe fun p r hr => .inr
    (.inr ⟨?_, ?_, ?_⟩)
  case entering => rw [hentering, hsessions]; exact hnone
  case building => rw [hb']; intro p r hbuilding; cases hbuilding
  case built =>
    intro p r v hbuilt
    rw [Cmd.building_of_built hbuilt] at hb'
    cases hb'
  · rw [← hrooms]
    exact hr
  · rw [hb]
    simp
  · unfold Owned
    rw [hsessions]
    exact id

theorem swap (hflight : b'.inFlight = b.inFlight)
    (hentering : b'.entering = b.entering) (hbuilding : b'.building = b.building)
    (hbuilt : b'.built = none) : m.Served (b' ::ₘ R) := by
  obtain ⟨hnone, hown, -⟩ := h.meets b (by simp)
  refine h.replace hflight ⟨hentering ▸ hnone, hbuilding ▸ hown, ?_⟩ (fun _ _ hc => hc)
    fun p r hr => ?_
  · rw [hbuilt]
    intro p r v hv
    cases hv
  · by_cases hb : b.building = some (p, r)
    · exact .inl (hbuilding.trans hb)
    · exact .inr (.inr ⟨hr, hb, id⟩)

theorem drop (hbuilding : b.building = none) : m.Served R :=
  h.finish (fun _ _ hc => hc) fun p r hr => ⟨hr, by rw [hbuilding]; simp, id⟩

end

theorem push (h : m.Served R) (hbuilding : b.building = none)
    (hentering : ∀ conn, b.entering = some conn → m.sessions.lookup conn = none)
    (hfree : ∀ conn, b.inFlight = some conn → ∀ c ∈ R, c.inFlight ≠ some conn) :
    m.Served (b ::ₘ R) := by
  refine ⟨forall_mem_cons.mpr ⟨⟨hentering, ?_, ?_⟩, h.meets⟩,
    Serial.begin h.once fun c hc conn hb => hfree conn hb c hc, fun p r hr => ?_⟩
  · rw [hbuilding]
    intro p r hb
    cases hb
  · intro p r v hbuilt
    rw [Cmd.building_of_built hbuilt] at hbuilding
    cases hbuilding
  · rcases h.owned p r hr with hown | ⟨c, hc, hb⟩
    · exact .inl hown
    · exact .inr ⟨c, mem_cons_of_mem hc, hb⟩

theorem addRoom (h : m.Served (.insertRoom req ::ₘ R))
    (hallocated : ∀ c ∈ R, ∀ r, c.room = some r → r < m.nextObject) :
    (m.addRoom req).Served (.createPublisherPeer req m.nextObject ::ₘ R) := by
  have hnone := (h.meets _ (mem_cons_self _ _)).entering
  refine h.replace rfl ⟨hnone, ?building, ?built⟩
    (fun c hc hmeets => hmeets.frame (fun _ _ hconn => hconn) ?owner ?publisher) ?owned
  case built =>
    intro p r v hv
    cases hv
  all_goals grind [Owned, Cmd.building]

theorem setPublisher (h : m.Served (.setPublisher req room ::ₘ R))
    (hset : m.setPublisher req room = some (m', v)) :
    m'.Served (.registerPublisher req room v ::ₘ R) := by
  obtain ⟨hnone, hbuilding, -⟩ := h.meets _ (mem_cons_self _ _)
  obtain ⟨hfree, rfl, rfl⟩ := setPublisher_eq_some hset
  refine h.replace rfl ⟨hnone, ?_, ?_⟩
    (fun c _ hc => hc.frame (fun _ _ hconn => hconn) ?_ ?_) ?_ <;>
    grind [Cmd.building, Cmd.built, Owned]

theorem registerPublisher (h : m.Served (.registerPublisher req room v ::ₘ R))
    (hregister : m.registerPublisher req room v = some m') :
    m'.Served (.createOffer req ::ₘ R) := by
  obtain ⟨hnone, -, hbuilt⟩ := h.meets _ (mem_cons_self _ _)
  obtain ⟨hpublisher, hconn, hroom, hrole⟩ := hbuilt _ _ _ rfl
  have hother := h.entering_ne req.connectionID rfl
  obtain ⟨-, hlisted, rfl⟩ := registerPublisher_eq_some hregister
  refine h.replace rfl ⟨?entering, ?building, ?built⟩
    (fun c hc hmeets => hmeets.frame ?sessions (fun _ _ => rfl) fun _ _ _ _ h => h) ?owned
  case entering => intro conn hconn; cases hconn
  case building => intro p r hb; cases hb
  case built => intro p r w hw; cases hw
  case sessions => grind
  case owned => grind [Owned, Cmd.building]

theorem removeRoom (h : m.Served (.removeRoom req room ::ₘ R)) :
    (m.removeRoom req.connectionID room).Served R := by
  unfold Manager.removeRoom
  split
  · refine h.finish (fun c hc hmeets => hmeets.frame (fun _ _ hconn => hconn)
      (fun _ _ => rfl) fun _ _ _ _ h => h) ?owned
    case owned => grind [Owned, Cmd.building]
  · refine h.finish (fun _ _ hmeets => hmeets) ?owned
    case owned => grind [Cmd.building]

theorem reserveViewer (h : m.Served (.reserveViewer wreq room ::ₘ R)) {maximum : Nat}
    (hreserve : (m.heap room).reserveViewer maximum = some value) :
    (m.store room value).Served (.createViewerPeer wreq room ::ₘ R) := by
  obtain ⟨howner, hpublisher, -⟩ := Room.reserveViewer_eq_some hreserve
  refine h.watching rfl rfl rfl rfl
    (fun c hc hmeets => hmeets.frame (fun _ _ hconn => hconn) ?owner ?publisher) rfl rfl
  case owner => grind
  case publisher => grind

theorem addViewer (h : m.Served (.registerViewer wreq room ::ₘ R)) :
    (m.addViewer wreq room).Served (.synchronizeViewerTracks wreq ::ₘ R) := by
  have hnone := (h.meets _ (mem_cons_self _ _)).entering wreq.connectionID rfl
  have hother := h.entering_ne wreq.connectionID rfl
  refine h.replace rfl ⟨?entering, ?building, ?built⟩
    (fun c hc hmeets => hmeets.frame ?sessions ?owner ?publisher) ?owned
  case entering => intro conn hconn; cases hconn
  case building => intro p r hb; cases hb
  case built => intro p r w hw; cases hw
  all_goals grind [Owned, Cmd.building]

theorem cancelViewerReservation (h : m.Served (.cancelViewerReservation wreq room ::ₘ R)) :
    (m.store room (m.heap room).cancelViewerReservation).Served R := by
  refine h.finish (fun c hc hmeets => hmeets.frame (fun _ _ hconn => hconn) ?_ ?_)
    fun p r hr => ⟨hr, by simp [Cmd.building], id⟩ <;> grind

theorem close (h : m.Served R) : m.close.Served R where
  meets b hb := (h.meets b hb).frame (fun _ _ _ => rfl) (fun _ _ => rfl) fun _ _ _ _ h => h
  once := h.once
  owned p r hr := by cases hr

end Served

end Pending

end Manager

/-! ## Every run -/

namespace Cmd

/-- The room that a failed start withdraws, and its publisher. -/
def withdrawing : Cmd → Option (String × RoomID)
  | .removeRoom req room => some (req.connectionID, room)
  | _ => none

end Cmd

/-- At most one start or watch of a connection is in flight: the next begins only when the last is
through. -/
def OneInFlight (_ : Manager) (S : Multiset Cmd) (c : Cmd) : Prop :=
  ∀ conn ∈ c.starting, ∀ b ∈ S, b.inFlight ≠ some conn
deriving Decidable

/-- Where a failed start withdraws its room, no viewer has come into it. -/
def NobodyWatching (m : Manager) (c : Cmd) : Prop :=
  ∀ e ∈ c.withdrawing, m.rooms.lookup e.1 = some e.2 → (m.heap e.2).viewers.keys = []
deriving Decidable

/-- The runs in which both hold. -/
def Unwatched (m : Manager) (S : Multiset Cmd) (c : Cmd) : Prop :=
  OneInFlight m S c ∧ NobodyWatching m c
deriving Decidable

/-- What holds in every configuration of such a run. -/
structure Sound (m : Manager) (S : Multiset Cmd) : Prop where
  coherent : m.Coherent
  served : m.Served S

theorem sound_new : Sound Manager.new 0 where
  coherent :=
    { listed := by intro p r hr; cases hr
      attached := by intro conn v hv; cases hv
      seated := by intro p r conn v hr; cases hr
      shut := by intro h; cases h }
  served :=
    { meets := fun b hb => absurd hb (notMem_zero b)
      once := fun _ => Nat.zero_le 1
      owned := by intro p r hr; cases hr }

namespace Sound

variable {m m' : Manager} {b b' : Cmd} {R : Multiset Cmd} {room : RoomID} {v : Session}
  {req : StartRequest} {wreq : WatchRequest}

theorem drop (h : Sound m (b ::ₘ R)) (hbuilding : b.building = none) : Sound m R :=
  ⟨h.coherent, h.served.drop hbuilding⟩

theorem leave (h : Sound m R) (conn : String) (expected : Option Session) :
    Sound (m.leave conn expected) R :=
  ⟨h.coherent.leave conn expected, h.served.leave h.coherent conn expected⟩

theorem push (h : Sound m R) (hflight : b.inFlight = none) : Sound m (b ::ₘ R) := by
  have hentering : ∀ conn, b.entering ≠ some conn :=
    fun conn hb => absurd (Cmd.inFlight_of_entering hb) (by rw [hflight]; simp)
  have hbuilding : b.building = none := by
    cases hb : b.building with
    | none => rfl
    | some e => exact absurd (Cmd.entering_of_building hb) (hentering e.1)
  refine ⟨h.coherent, h.served.push hbuilding (fun conn hb => absurd hb (hentering conn)) ?_⟩
  rw [hflight]
  intro conn hb
  cases hb

theorem begins (h : Sound m (b ::ₘ R)) {conn : String} (hconn : conn ≠ "")
    (hstarting : b.starting = some conn) (hone : OneInFlight m (b ::ₘ R) b)
    (hbuilding : b.building = none) (hbuilding' : b'.building = none)
    (hflight : b'.inFlight = some conn) : Sound (m.leave conn none) (b' ::ₘ R) := by
  have hleft := (h.drop hbuilding).leave conn none
  refine ⟨hleft.coherent, hleft.served.push hbuilding' ?_ ?_⟩
  · intro conn' hentering
    rw [Cmd.inFlight_of_entering hentering] at hflight
    cases hflight
    refine m.lookup_leave hconn fun v hv hrole => ?_
    obtain ⟨hid, hlive⟩ := h.coherent.attached _ v hv
    exact ⟨(hlive.publisher hrole).1, hid⟩
  · intro conn' hb c hc
    rw [hflight] at hb
    cases hb
    exact hone conn hstarting c (mem_cons_of_mem hc)

theorem addRoom (h : Sound m (.insertRoom req ::ₘ R)) (hopen : m.closed = false)
    (hallocated : ∀ c ∈ R, ∀ r, c.room = some r → r < m.nextObject) :
    Sound (m.addRoom req) (.createPublisherPeer req m.nextObject ::ₘ R) := by
  have hnone := (h.served.meets _ (mem_cons_self _ _)).entering req.connectionID rfl
  have hother := h.served.entering_ne req.connectionID rfl
  -- a room still listed for the connection would have a publisher, registered or on the way
  have hunlisted : m.rooms.lookup req.connectionID = none := by
    cases hr : m.rooms.lookup req.connectionID with
    | none => rfl
    | some r =>
      rcases h.served.owned _ r hr with ⟨v, hv, -⟩ | ⟨c, hc, hbuilding⟩
      · rw [hnone] at hv
        cases hv
      · rcases mem_cons.mp hc with rfl | hc
        · cases hbuilding
        · exact absurd (Cmd.entering_of_building hbuilding) (hother c hc)
  exact ⟨h.coherent.addRoom hopen hunlisted, h.served.addRoom hallocated⟩

theorem registerPublisher (h : Sound m (.registerPublisher req room v ::ₘ R))
    (hregister : m.registerPublisher req room v = some m') : Sound m' (.createOffer req ::ₘ R) := by
  obtain ⟨hnone, -, hbuilt⟩ := h.served.meets _ (mem_cons_self _ _)
  obtain ⟨hpublisher, hconn, hroom, hrole⟩ := hbuilt _ _ _ rfl
  exact ⟨h.coherent.registerPublisher hregister (hnone _ rfl) hconn hroom hrole hpublisher,
    h.served.registerPublisher hregister⟩

theorem removeRoom (h : Sound m (.removeRoom req room ::ₘ R))
    (hviewers : m.rooms.lookup req.connectionID = some room → (m.heap room).viewers.keys = []) :
    Sound (m.removeRoom req.connectionID room) R := by
  have hnone := (h.served.meets _ (mem_cons_self _ _)).entering req.connectionID rfl
  exact ⟨h.coherent.removeRoom hnone hviewers, h.served.removeRoom⟩

theorem addViewer (h : Sound m (.registerViewer wreq room ::ₘ R)) (hopen : m.closed = false)
    (hlisted : m.rooms.lookup (m.heap room).publisherConnectionID = some room) :
    Sound (m.addViewer wreq room) (.synchronizeViewerTracks wreq ::ₘ R) := by
  have hnone := (h.served.meets _ (mem_cons_self _ _)).entering wreq.connectionID rfl
  exact ⟨h.coherent.addViewer hopen hlisted hnone, h.served.addViewer⟩

end Sound

theorem exec_sound (maxViewers : Nat) {m : Manager} {R : Multiset Cmd} {c : Cmd} (ok : Bool)
    (h : Sound m (c ::ₘ R)) (hguard : Unwatched m (c ::ₘ R) c)
    (hallocated : ∀ b ∈ R, ∀ r, b.room = some r → r < m.nextObject) :
    Sound (exec maxViewers c ok m).1 ((cmds (exec maxViewers c ok m).2 : Multiset Cmd) + R) := by
  refine exec_rule (P := Sound) ok fun m' after hstep => ?_
  cases hstep with
  | ends hend => exact h.drop (by cases hend <;> rfl)
  | handsOn hhands =>
    refine ⟨h.coherent, h.served.swap ?_ ?_ ?_ ?_⟩ <;> cases hhands <;> rfl
  | passesOn hpasses =>
    refine ⟨h.coherent, h.served.watching ?_ ?_ ?_ ?_ (fun _ _ hc => hc) rfl rfl⟩ <;>
      cases hpasses <;> rfl
  | start hreq | watch hreq => exact h.begins hreq.1 rfl hguard.1 rfl rfl rfl
  | insertRoom hopen => exact h.addRoom hopen hallocated
  | setPublisher hset => exact ⟨h.coherent.setPublisher hset, h.served.setPublisher hset⟩
  | registerPublisher hregister => exact h.registerPublisher hregister
  | removeRoom => exact h.removeRoom (hguard.2 _ rfl)
  | noOffer | noTracks => exact (h.drop rfl).push rfl
  | findRoom => exact ⟨h.coherent, h.served.watching rfl rfl rfl rfl (fun _ _ hc => hc) rfl rfl⟩
  | reserveViewer hreserve =>
    obtain ⟨howner, hpublisher, hviewers, -⟩ := Room.reserveViewer_eq_some hreserve
    exact ⟨h.coherent.store howner hpublisher hviewers, h.served.reserveViewer hreserve⟩
  | registerViewer hopen hlisted => exact h.addViewer hopen hlisted
  | cancelViewerReservation =>
    exact ⟨h.coherent.store rfl rfl rfl, h.served.cancelViewerReservation⟩
  | leave | failSession => exact (h.drop rfl).leave _ _
  | close => exact ⟨Manager.Coherent.close m, (h.drop rfl).served.close⟩

theorem sound_of_reachable {maxViewers : Nat} {cfg : Config Manager Empty Cmd}
    (h : (machine maxViewers).Reachable (fun _ => True) Unwatched Manager.new cfg) :
    Sound cfg.state cfg.pending := by
  refine h.induction (P := Sound) sound_new ?_ ?_
  · intro m S op _ hsound
    cases op <;> exact (pushed_run _ S).symm ▸ hsound.push rfl
  · intro cfg i c ok m' new rest R hcfg hfires hguard hsound
    have hlimits := limits_of_reachable hcfg
    rw [hfires.pending] at hlimits
    have hexec : exec maxViewers c ok cfg.state = (m', new) := Option.some.inj hfires.exec
    have hstep := exec_sound maxViewers ok hsound hguard
      fun b hb => hlimits.accounted.allocated b (mem_cons_of_mem hb)
    rw [hexec] at hstep
    exact hstep

/-- The session's room is the one listed for the room's publisher, and the session is that publisher
or one of the viewers. -/
def Manager.Homed (m : Manager) (v : Session) : Prop :=
  m.rooms.lookup (m.heap v.room).publisherConnectionID = some v.room ∧
    ((m.heap v.room).publisher = some v ∨ (m.heap v.room).viewers.lookup v.connectionID = some v)
deriving Decidable

theorem Manager.Live.homed {m : Manager} {v : Session} (h : m.Live v) : m.Homed v := by
  refine ⟨h.listed, ?_⟩
  rcases v.role.publisher_or_viewer with hrole | hrole
  · exact .inl (h.publisher hrole).1
  · exact .inr (h.viewer hrole)

/-- **Every session has a live room, where no failed start withdraws a room with viewers.** The
limits hold in every run. -/
theorem stream_sessions_live (maxViewers : Nat) :
    (∀ cfg, (machine maxViewers).Reachable (fun _ => True) OneInFlight Manager.new cfg →
      (∀ r, (cfg.state.heap r).viewers.keys.length + (cfg.state.heap r).reservations ≤ maxViewers) ∧
      ∀ serverID channelID, cfg.state.publishers serverID channelID ≤ maxChannelPublishers) ∧
    ∀ cfg, (machine maxViewers).Reachable (fun _ => True) Unwatched Manager.new cfg →
      ∀ conn v, cfg.state.sessions.lookup conn = some v →
        v.connectionID = conn ∧ cfg.state.Homed v := by
  constructor
  · intro cfg h
    have hlimits := limits_of_reachable h
    exact ⟨hlimits.accounted.bounded, hlimits.limited.publishers⟩
  · intro cfg h conn v hv
    obtain ⟨hconn, hlive⟩ := (sound_of_reachable h).coherent.attached conn v hv
    exact ⟨hconn, hlive.homed⟩

namespace Sample

def start : StartRequest :=
  ⟨"publisher", 7, 3, 5, "vp8", false, mediaStreamRenditions [legacySDRStreamRendition "vp8"]⟩

def watch : WatchRequest :=
  ⟨"viewer", 8, 3, 5, "publisher", "sdr"⟩

def opened : List (Machine.Move Bool Op) :=
  [.start (.startWithRenditions start), .step 0 true, .step 0 true]

def published : List (Machine.Move Bool Op) :=
  [.step 0 true, .step 0 true, .step 0 true, .step 0 true]

def watched : List (Machine.Move Bool Op) :=
  [.start (.watchRenditionForPublisher watch), .step 1 true, .step 1 true, .step 1 true,
    .step 1 true, .step 1 true, .step 1 true]

def failed : List (Machine.Move Bool Op) :=
  [.step 0 false, .step 0 true]

end Sample

theorem stream_sessions_live_watched : ∃ cfg : Config Manager Empty Cmd,
    cfg.Quiescent ∧ cfg.state.sessions.keys = ["viewer", "publisher"] ∧
      ∀ conn v, cfg.state.sessions.lookup conn = some v →
        v.connectionID = conn ∧ cfg.state.Homed v := by
  obtain ⟨cfg, hrun, hquiet, hsessions⟩ : ∃ cfg,
      (machine 32).Reachable (fun _ => True) Unwatched Manager.new cfg ∧ cfg.Quiescent ∧
        cfg.state.sessions.keys = ["viewer", "publisher"] :=
    Machine.exists_reachable_of_play (Sample.opened ++ Sample.published ++ Sample.watched)
      (by decide +kernel)
  exact ⟨cfg, hquiet, hsessions, (stream_sessions_live 32).2 cfg hrun⟩

/-- **Rooms and reservations do not leak.** In every run, a room's reservations are those of the
watches in flight. Once nothing is in progress there are none; and where no failed start withdraws a
room with viewers, a listed room has its publisher's session and its viewers have theirs. -/
theorem stream_rooms_owned {maxViewers : Nat} {cfg : Config Manager Empty Cmd} :
    (∀ {allowed guard}, (machine maxViewers).Reachable allowed guard Manager.new cfg → ∀ r,
      (cfg.state.heap r).reservations = holders cfg.pending r ∧
        (cfg.Quiescent → (cfg.state.heap r).reservations = 0)) ∧
    ((machine maxViewers).Reachable (fun _ => True) Unwatched Manager.new cfg → cfg.Quiescent →
      ∀ p r, cfg.state.rooms.lookup p = some r → cfg.state.Owned p r ∧
        ∀ conn v, (cfg.state.heap r).viewers.lookup conn = some v →
          cfg.state.sessions.lookup conn = some v ∧ v.room = r ∧ v.role = .sessionViewer) := by
  constructor
  · intro allowed guard h r
    have hreserved := (limits_of_reachable h).accounted.reserved r
    refine ⟨hreserved, fun hquiet => ?_⟩
    rw [hreserved, hquiet.pending_eq_zero]
    rfl
  · intro h hquiet p r hr
    have hsound := sound_of_reachable h
    rw [hquiet.pending_eq_zero] at hsound
    refine ⟨(hsound.served.owned p r hr).resolve_right ?_, fun conn v =>
      hsound.coherent.seated p r conn v hr⟩
    exact fun ⟨b, hb, _⟩ => notMem_zero b hb

theorem stream_rooms_owned_watched : ∃ cfg : Config Manager Empty Cmd,
    (∀ r, (cfg.state.heap r).reservations = 0) ∧ cfg.state.Owned "publisher" 0 := by
  obtain ⟨cfg, hrun, hquiet, hroom⟩ : ∃ cfg,
      (machine 32).Reachable (fun _ => True) Unwatched Manager.new cfg ∧ cfg.Quiescent ∧
        cfg.state.rooms.lookup "publisher" = some 0 :=
    Machine.exists_reachable_of_play (Sample.opened ++ Sample.published ++ Sample.watched)
      (by decide +kernel)
  exact ⟨cfg, fun r => (stream_rooms_owned.1 hrun r).2 hquiet,
    (stream_rooms_owned.2 hrun hquiet _ _ hroom).1⟩

/-- **The stranded viewer.** The room is listed, a viewer comes in, the setup of the publisher
fails: at the end nothing is in progress, the viewer has a session, and its room is gone. -/
theorem viewer_stranded : ∃ cfg : Config Manager Empty Cmd,
    (machine 32).Reachable (fun _ => True) OneInFlight Manager.new cfg ∧ cfg.Quiescent ∧
      ∃ v, cfg.state.sessions.lookup "viewer" = some v ∧ ¬cfg.state.Homed v := by
  obtain ⟨cfg, hrun, hquiet, hstranded⟩ : ∃ cfg,
      (machine 32).Reachable (fun _ => True) OneInFlight Manager.new cfg ∧ cfg.Quiescent ∧
        ((cfg.state.sessions.lookup "viewer").any fun v => ¬cfg.state.Homed v) = true :=
    Machine.exists_reachable_of_play (Sample.opened ++ Sample.watched ++ Sample.failed)
      (by decide +kernel)
  obtain ⟨v, hv, hgone⟩ := (Option.any_eq_true _ _).mp hstranded
  exact ⟨cfg, hrun, hquiet, v, hv, of_decide_eq_true hgone⟩

end Voxhold.Stream
