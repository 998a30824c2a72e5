/-
# Voxhold.Voice.RoomsKept — voice rooms keep their capacity and are cleaned up

`Coherent`: a room with anyone in it, or about to be, is the one listed for its channel. `Bounded`:
no room exceeds its places. `Served`: the reservations are those of the `Join`s in flight, and an
empty room that is listed has someone on the way to remove it. Callers have one `Join` in flight per
connection (`OneJoin`).
-/

import Voxhold.Lib.InFlight
import Voxhold.Voice.Rooms

namespace Voxhold.Voice

variable {max : Nat} {m : Manager} {S : Multiset Cmd}

open Voxhold.Lib Multiset

/-! ## The `Join`s in flight -/

namespace Cmd

/-- The connection whose `Join` is in flight with this command next. -/
def joining : Cmd → Option String
  | .reserve req | .createPeer req _ | .insert req _ | .cancelReservation req _ | .checkEmpty req _
  | .removeRoomIfEmpty req _ | .synchronizeTracks req => some req.connectionID
  | _ => none

/-- The connection that a `Join` is about to enter a session for. -/
def entering : Cmd → Option String
  | .reserve req | .createPeer req _ | .insert req _ => some req.connectionID
  | _ => none

/-- The request of a `Join` and the room it reserved a place in. -/
def target : Cmd → Option (JoinRequest × RoomID)
  | .createPeer req room | .insert req room | .cancelReservation req room | .checkEmpty req room
  | .removeRoomIfEmpty req room => some (req, room)
  | _ => none

/-- The room in which a `Join` holds a reservation. -/
def reserved : Cmd → Option RoomID
  | .createPeer _ room | .insert _ room | .cancelReservation _ room => some room
  | _ => none

/-- The room that a `Join` is about to remove should it be empty. -/
def clearing : Cmd → Option RoomID
  | .checkEmpty _ room | .removeRoomIfEmpty _ room => some room
  | _ => none

end Cmd

/-- The number of `Join`s in flight that hold a reservation in the room. -/
def holders (S : Multiset Cmd) (room : RoomID) : Nat :=
  S.countP fun b => b.reserved = some room

/-- The number of `Join`s in flight for the connection. -/
def joins (S : Multiset Cmd) (connectionID : String) : Nat :=
  S.countP fun b => b.joining = some connectionID

@[grind =] theorem holders_cons (b : Cmd) (R : Multiset Cmd) (room : RoomID) :
    holders (b ::ₘ R) room = holders R room + if b.reserved = some room then 1 else 0 :=
  countP_cons ..

/-! ## The invariant -/

/-- The maps of the manager and the rooms agree. -/
structure Manager.Coherent (m : Manager) : Prop where
  fresh : ∀ r, m.nextObject ≤ r → (m.heap r).Empty
  listed : ∀ ch r, m.rooms.lookup ch = some r → r < m.nextObject ∧ (m.heap r).id = ch
  attached : ∀ conn v, m.sessions.lookup conn = some v →
    v.connectionID = conn ∧ (m.heap v.room).id = v.channelID ∧
      (m.heap v.room).sessions.lookup conn = some v
  released : m.closed = false → ∀ r conn v, (m.heap r).sessions.lookup conn = some v →
    m.sessions.lookup conn = some v ∧ v.room = r
  occupied : m.closed = false → ∀ r, ¬(m.heap r).Empty → m.rooms.lookup (m.heap r).id = some r
  alone : ∀ r r', ¬(m.heap r).Empty → ¬(m.heap r').Empty → (m.heap r).id = (m.heap r').id → r = r'
  shut : m.closed = true → (∀ ch, m.rooms.lookup ch = none) ∧ ∀ conn, m.sessions.lookup conn = none

/-- What the pending commands know of the manager. -/
structure Manager.Served (m : Manager) (S : Multiset Cmd) : Prop where
  reserved : ∀ r, (m.heap r).reservations = holders S r
  target : ∀ b ∈ S, ∀ req r, b.target = some (req, r) →
    r < m.nextObject ∧ (m.heap r).id = req.channelID
  once : ∀ conn, joins S conn ≤ 1
  entering : ∀ b ∈ S, ∀ conn, b.entering = some conn → m.sessions.lookup conn = none
  cleared : ∀ ch r, m.rooms.lookup ch = some r → (m.heap r).Empty → ∃ b ∈ S, b.clearing = some r

/-! ## The maps and the rooms -/

namespace Manager

variable (m : Manager) (room r : RoomID) (value : Room) (conn conn' : String) (v : Session)

namespace Coherent

variable {m room value conn v}

section

variable (h : m.Coherent)
include h

theorem store (hid : value.id = (m.heap room).id)
    (hsessions : value.sessions = (m.heap room).sessions)
    (hlisted : ¬value.Empty → ¬(m.heap room).Empty ∨
      m.closed = false ∧ m.rooms.lookup (m.heap room).id = some room) :
    (m.store room value).Coherent := by
  obtain ⟨hfresh, hl, hatt, hrel, hocc, halone, hshut⟩ := h
  constructor <;> grind

theorem detach (hv : m.sessions.lookup conn = some v) : (m.detach conn v).Coherent := by
  have hempty : (m.heap v.room).Empty → ((m.heap v.room).removeSession conn).Empty :=
    Room.Empty.removeSession conn
  obtain ⟨hfresh, hl, hatt, hrel, hocc, halone, hshut⟩ := h
  constructor <;> grind

theorem deleteIfEmpty (ch : Int) (room : RoomID) : (m.deleteIfEmpty ch room).Coherent := by
  unfold Manager.deleteIfEmpty
  split
  · next hdelete =>
    obtain ⟨hempty, hroom⟩ := hdelete
    have hrooms : ∀ ch', (m.rooms.erase ch).lookup ch' = if ch' = ch then none else
      m.rooms.lookup ch' :=
      lookup_erase_eq_ite _ _
    obtain ⟨hfresh, hl, hatt, hrel, hocc, halone, hshut⟩ := h
    refine ⟨hfresh, ?_, hatt, hrel, ?_, halone, ?_⟩ <;> grind
  · exact h

theorem addRoom (hopen : m.closed = false) {ch : Int}
    (hnone : m.rooms.lookup ch = none) : (m.addRoom ch).Coherent := by
  have hnew : (Room.new ch).Empty := Room.empty_new ch
  have hold : (m.heap m.nextObject).Empty := h.fresh _ (Nat.le_refl _)
  obtain ⟨hfresh, hl, hatt, hrel, hocc, halone, hshut⟩ := h
  constructor <;> grind

theorem addSession {req : JoinRequest} (hopen : m.closed = false)
    (hnone : m.sessions.lookup req.connectionID = none) (hid : (m.heap room).id = req.channelID)
    (hroom : ¬(m.heap room).Empty) : (m.addSession req room).Coherent := by
  have hnew : (m.newSession req room).connectionID = req.connectionID ∧
      (m.newSession req room).channelID = req.channelID ∧ (m.newSession req room).room = room :=
    ⟨rfl, rfl, rfl⟩
  obtain ⟨hfresh, hl, hatt, hrel, hocc, halone, hshut⟩ := h
  constructor <;> grind

theorem close : m.close.Coherent where
  __ := h
  listed ch r hr := by cases hr
  attached conn v hv := by cases hv
  released hopen := by cases hopen
  occupied hopen := by cases hopen
  shut _ := ⟨fun _ => rfl, fun _ => rfl⟩

theorem leave (conn : String) (expected : Option Session) : (m.leave conn expected).Coherent := by
  rcases m.leave_eq conn expected with heq | ⟨v, hv, heq⟩
  · rw [heq]
    exact h
  · rw [heq]
    exact (h.detach hv).deleteIfEmpty _ _

theorem reserve {max : Nat} (hmax : 0 < max) (ch : Int) : (m.reserve max ch).1.Coherent := by
  rcases m.reserve_cases hmax ch with heq | ⟨n, room, value, hopen, hn, hvalue, heq⟩
  · rw [heq]
    exact h
  · obtain ⟨hid, hsessions, -⟩ := Room.reserve_eq_some hvalue
    have hcoherent : n.Coherent := by
      rcases hn with ⟨rfl, -⟩ | ⟨rfl, hnone, -⟩
      · exact h
      · exact h.addRoom hopen hnone
    have hlisted : n.closed = false ∧ n.rooms.lookup ch = some room := by
      rcases hn with ⟨rfl, hroom⟩ | ⟨rfl, -, rfl⟩
      · exact ⟨hopen, hroom⟩
      · exact ⟨hopen, AList.lookup_insert _⟩
    rw [heq]
    refine hcoherent.store hid hsessions fun _ => .inr ⟨hlisted.1, ?_⟩
    rw [(hcoherent.listed ch room hlisted.2).2]
    exact hlisted.2

end

end Coherent

/-! ## The joins in flight and the manager -/

namespace Served

variable {m} {b b' : Cmd} {R : Multiset Cmd} {max : Nat} {req : JoinRequest}

theorem swap (h : m.Served (b ::ₘ R)) (hreserved : b'.reserved = b.reserved)
    (htarget : b'.target = b.target) (hjoining : b'.joining = b.joining)
    (hentering : b'.entering = none ∨ b'.entering = b.entering)
    (hclearing : b'.clearing = b.clearing) : m.Served (b' ::ₘ R) := by
  obtain ⟨hres, htar, honce, hent, hclear⟩ := h
  have hserial : Serial Cmd.joining (b' ::ₘ R) := Serial.replace honce hjoining
  simp only [mem_cons, holders_cons] at *
  refine ⟨?_, ?_, hserial, ?_, ?_⟩ <;> grind

theorem drop (h : m.Served (b ::ₘ R)) (hreserved : b.reserved = none)
    (hclearing : ∀ r, b.clearing = some r → ¬(m.heap r).Empty) : m.Served R := by
  obtain ⟨hres, htar, honce, hent, hclear⟩ := h
  have hserial : Serial Cmd.joining R := Serial.drop honce
  simp only [mem_cons, holders_cons] at *
  refine ⟨?_, ?_, hserial, ?_, ?_⟩ <;> grind

theorem leave (h : m.Served R) (hm : m.Coherent) (conn : String) (expected : Option Session) :
    (m.leave conn expected).Served R := by
  rcases m.leave_eq conn expected with heq | ⟨v, hv, heq⟩
  · rw [heq]
    exact h
  · rw [heq]
    have hd := hm.detach hv
    obtain ⟨-, hid, -⟩ := hm.attached conn v hv
    obtain ⟨hres, htar, honce, hent, hclear⟩ := h
    unfold Manager.deleteIfEmpty
    split
    · have hrooms : ∀ ch, (m.rooms.erase v.channelID).lookup ch =
          if ch = v.channelID then none else m.rooms.lookup ch := lookup_erase_eq_ite _ _
      have hlisted := hm.listed
      refine ⟨?_, ?_, honce, ?_, ?_⟩ <;> grind
    · next hkeep =>
      have hlisted := hm.listed
      refine ⟨?_, ?_, honce, ?_, ?_⟩ <;> grind

theorem join (h : m.Served (.join req ::ₘ R)) (hm : m.Coherent) (hreq : req.Valid)
    (hfree : ∀ b ∈ R, b.joining ≠ some req.connectionID) :
    (m.leave req.connectionID none).Served (.reserve req ::ₘ R) := by
  have hgone := m.lookup_leave req.connectionID hreq.1
  obtain ⟨hres, htar, honce, hent, hclear⟩ := h.leave hm req.connectionID none
  have hserial : Serial Cmd.joining (.reserve req ::ₘ R) := by
    refine (Serial.drop honce).begin fun b hb conn hconn => ?_
    obtain rfl : req.connectionID = conn := Option.some.inj hconn
    exact hfree b hb
  simp only [mem_cons, holders_cons] at *
  refine ⟨?_, ?_, hserial, ?_, ?_⟩ <;> grind [Cmd.reserved, Cmd.target, Cmd.entering, Cmd.clearing]

theorem reserve (h : m.Served (.reserve req ::ₘ R)) (hm : m.Coherent) (hmax : 0 < max)
    {m' : Manager} (hreserve : m.reserve max req.channelID = (m', some room)) :
    m'.Served (.createPeer req room ::ₘ R) := by
  rcases m.reserve_cases hmax req.channelID with heq | ⟨n, room, value, hopen, hn, hvalue, heq⟩
  · rw [heq] at hreserve
    cases hreserve
  · rw [heq] at hreserve
    cases hreserve
    obtain ⟨hid, -, hreserved, -⟩ := Room.reserve_eq_some hvalue
    have hlisted := hm.listed
    have hfresh := hm.fresh
    have hnew := Room.empty_new req.channelID
    have hnone := h.entering _ (mem_cons_self _ _) req.connectionID rfl
    obtain ⟨hres, htar, honce, hent, hclear⟩ := h
    have hserial : Serial Cmd.joining (.createPeer req room ::ₘ R) := Serial.replace honce rfl
    simp only [mem_cons, holders_cons] at *
    refine ⟨?_, ?_, hserial, ?_, ?_⟩ <;>
      grind [Cmd.reserved, Cmd.target, Cmd.entering, Cmd.clearing]

theorem entering_ne (h : m.Served (b ::ₘ R)) (conn : String) (hb : b.joining = some conn) :
    ∀ b' ∈ R, b'.entering ≠ some conn := by
  intro b' hb' hentering
  have hjoining : b'.joining = some conn := by
    cases b' <;> simp_all [Cmd.entering, Cmd.joining]
  exact Serial.ne_of_mem h.once hb hb' hjoining

theorem addSession (h : m.Served (.insert req room ::ₘ R)) :
    (m.addSession req room).Served (.synchronizeTracks req ::ₘ R) := by
  have hother := h.entering_ne req.connectionID rfl
  have hfull := (m.heap room).not_empty_addSession (m.newSession req room)
  obtain ⟨hres, htar, honce, hent, hclear⟩ := h
  have hserial : Serial Cmd.joining (.synchronizeTracks req ::ₘ R) := Serial.replace honce rfl
  simp only [mem_cons, holders_cons] at *
  refine ⟨?_, ?_, hserial, ?_, ?_⟩ <;> grind [Cmd.reserved, Cmd.target, Cmd.entering, Cmd.clearing]

theorem cancelReservation (h : m.Served (.cancelReservation req room ::ₘ R)) :
    (m.store room (m.heap room).cancelReservation).Served (.checkEmpty req room ::ₘ R) := by
  have hroom := h.target _ (mem_cons_self _ _) req room rfl
  obtain ⟨hres, htar, honce, hent, hclear⟩ := h
  have hserial : Serial Cmd.joining (.checkEmpty req room ::ₘ R) := Serial.replace honce rfl
  simp only [mem_cons, holders_cons] at *
  have hself := mem_cons_self (Cmd.checkEmpty req room) R
  refine ⟨?_, ?_, hserial, ?_, ?_⟩ <;> grind [Cmd.reserved, Cmd.target, Cmd.entering, Cmd.clearing]

theorem deleteIfEmpty (h : m.Served (.removeRoomIfEmpty req room ::ₘ R)) (hm : m.Coherent) :
    (m.deleteIfEmpty req.channelID room).Served R := by
  have hroom := (h.target _ (mem_cons_self _ _) req room rfl).2
  have hlisted := hm.listed
  obtain ⟨hres, htar, honce, hent, hclear⟩ := h
  have hserial : Serial Cmd.joining R := Serial.drop honce
  simp only [mem_cons, holders_cons] at *
  unfold Manager.deleteIfEmpty
  split
  · have hrooms : ∀ ch, (m.rooms.erase req.channelID).lookup ch =
        if ch = req.channelID then none else m.rooms.lookup ch := lookup_erase_eq_ite _ _
    refine ⟨?_, ?_, hserial, ?_, ?_⟩ <;>
      grind [Cmd.reserved, Cmd.target, Cmd.entering, Cmd.clearing]
  · refine ⟨?_, ?_, hserial, ?_, ?_⟩ <;>
      grind [Cmd.reserved, Cmd.target, Cmd.entering, Cmd.clearing]

theorem close (h : m.Served R) : m.close.Served R where
  __ := h
  entering _ _ _ _ := rfl
  cleared _ _ hr := by cases hr

end Served

/-! ## The capacity -/

def Bounded (m : Manager) (max : Nat) : Prop :=
  ∀ r, (m.heap r).seats.used ≤ max

namespace Bounded

variable {m room} {max : Nat}

theorem store (h : m.Bounded max) {value : Room} (hvalue : value.seats.used ≤ max) :
    (m.store room value).Bounded max := by
  intro r
  show (if r = room then value else m.heap r).seats.used ≤ max
  split
  · exact hvalue
  · exact h r

theorem leave (h : m.Bounded max) (conn : String) (expected : Option Session) :
    (m.leave conn expected).Bounded max := by
  rcases m.leave_eq conn expected with heq | ⟨v, -, heq⟩
  · rw [heq]
    exact h
  · have hdetach : (m.detach conn v).Bounded max :=
      h.store (Nat.le_trans (Seats.used_vacate_le conn) (h v.room))
    rw [heq]
    unfold Manager.deleteIfEmpty
    split <;> exact hdetach

theorem reserve (h : m.Bounded max) (hmax : 0 < max) (ch : Int) :
    (m.reserve max ch).1.Bounded max := by
  rcases m.reserve_cases hmax ch with heq | ⟨n, room, value, -, hn, hvalue, heq⟩
  · rw [heq]
    exact h
  · have hold : n.Bounded max := by
      rcases hn with ⟨rfl, -⟩ | ⟨rfl, -, -⟩
      · exact h
      · exact h.store (Nat.zero_le max)
    rw [heq]
    exact hold.store (Room.reserve_eq_some hvalue).2.2.2

end Bounded

end Manager

/-! ## Every run -/

namespace Cmd

/-- The connection of a `Join` that has not begun. -/
def starting : Cmd → Option String
  | .join req => some req.connectionID
  | _ => none

end Cmd

/-- At most one `Join` of a connection is in flight: the next begins only when the last is through.
-/
def OneJoin (_ : Manager) (S : Multiset Cmd) (c : Cmd) : Prop :=
  ∀ conn ∈ c.starting, ∀ b ∈ S, b.joining ≠ some conn
deriving Decidable

/-- What holds in every reachable configuration. -/
structure Sound (max : Nat) (m : Manager) (S : Multiset Cmd) : Prop where
  coherent : m.Coherent
  bounded : m.Bounded max
  served : m.Served S

theorem sound_new (max : Nat) : Sound max Manager.new 0 where
  coherent :=
    { fresh := fun _ _ => Room.empty_new 0
      listed := by intro ch r hr; cases hr
      attached := by intro conn v hv; cases hv
      released := by intro _ r conn v hv; cases hv
      occupied := fun _ r hr => absurd (Room.empty_new 0) hr
      alone := fun r _ hr => absurd (Room.empty_new 0) hr
      shut := by intro h; cases h }
  bounded _ := Nat.zero_le max
  served :=
    { reserved := fun _ => rfl
      target := by intro b hb; cases hb
      once := fun _ => Nat.zero_le 1
      entering := by intro b hb; cases hb
      cleared := by intro ch r hr; cases hr }

theorem Sound.start {c : Cmd} (h : Sound max m S)
    (hc : c.joining = none) : Sound max m (c ::ₘ S) := by
  refine ⟨h.coherent, h.bounded, ?_⟩
  obtain ⟨hres, htar, honce, hent, hclear⟩ := h.served
  have hnone : c.reserved = none ∧ c.target = none ∧ c.entering = none := by
    cases c <;> first | exact ⟨rfl, rfl, rfl⟩ | cases hc
  have hserial : Serial Cmd.joining (c ::ₘ S) := by
    refine Serial.begin honce fun b hb conn hconn => ?_
    rw [hc] at hconn
    cases hconn
  refine ⟨?_, ?_, hserial, ?_, ?_⟩ <;> grind

namespace Sound

variable {max : Nat} {m : Manager} {R : Multiset Cmd} {c : Cmd} {req : JoinRequest} {room : RoomID}

theorem drop (h : Sound max m (c ::ₘ R)) (hreserved : c.reserved = none)
    (hclearing : ∀ r, c.clearing = some r → ¬(m.heap r).Empty) : Sound max m R :=
  ⟨h.coherent, h.bounded, h.served.drop hreserved hclearing⟩

theorem leave (h : Sound max m R) (conn : String) (expected : Option Session) :
    Sound max (m.leave conn expected) R :=
  ⟨h.coherent.leave conn expected, h.bounded.leave conn expected,
    h.served.leave h.coherent conn expected⟩

theorem join (h : Sound max m (.join req ::ₘ R)) (hreq : req.Valid)
    (hone : OneJoin m (.join req ::ₘ R) (.join req)) :
    Sound max (m.leave req.connectionID none) (.reserve req ::ₘ R) := by
  have hfree : ∀ b ∈ R, b.joining ≠ some req.connectionID :=
    fun b hb => hone req.connectionID rfl b (mem_cons_of_mem hb)
  exact ⟨h.coherent.leave _ _, h.bounded.leave _ _, h.served.join h.coherent hreq hfree⟩

theorem reserve (h : Sound max m (.reserve req ::ₘ R)) (hmax : 0 < max) {m' : Manager}
    (hreserve : m.reserve max req.channelID = (m', some room)) :
    Sound max m' (.createPeer req room ::ₘ R) := by
  have hcoherent := h.coherent.reserve hmax req.channelID
  have hbounded := h.bounded.reserve hmax req.channelID
  rw [hreserve] at hcoherent hbounded
  exact ⟨hcoherent, hbounded, h.served.reserve room h.coherent hmax hreserve⟩

theorem reserve_none (h : Sound max m (.reserve req ::ₘ R)) (hmax : 0 < max) {m' : Manager}
    (hreserve : m.reserve max req.channelID = (m', none)) : Sound max m' R := by
  rcases m.reserve_cases hmax req.channelID with heq | ⟨n, room, value, -, -, -, heq⟩
  · rw [heq] at hreserve
    obtain rfl := (Prod.mk.inj hreserve).1
    exact h.drop rfl (by intro r hr; cases hr)
  · rw [heq] at hreserve
    cases hreserve

theorem addSession (h : Sound max m (.insert req room ::ₘ R)) (hopen : m.closed = false) :
    Sound max (m.addSession req room) (.synchronizeTracks req ::ₘ R) := by
  have htarget := h.served.target _ (mem_cons_self _ _) req room rfl
  have hnone := h.served.entering _ (mem_cons_self _ _) req.connectionID rfl
  -- the reservation is there: it is the one of this `Join`
  have hreserved : 0 < (m.heap room).reservations := by
    rw [h.served.reserved]
    exact countP_pos.mpr ⟨_, mem_cons_self _ _, rfl⟩
  refine ⟨h.coherent.addSession hopen hnone htarget.2 (Room.not_empty_of_reservations hreserved),
    ?_, h.served.addSession room⟩
  exact h.bounded.store (Nat.le_trans (Seats.used_take_le _ _ hreserved) (h.bounded room))

theorem cancelReservation (h : Sound max m (.cancelReservation req room ::ₘ R)) :
    Sound max (m.store room (m.heap room).cancelReservation) (.checkEmpty req room ::ₘ R) := by
  refine ⟨h.coherent.store rfl rfl fun hfull => .inl fun hempty => ?_, ?_,
    h.served.cancelReservation room⟩
  · exact hfull hempty.cancelReservation
  · exact h.bounded.store (Nat.le_trans Seats.used_cancel_le (h.bounded room))

theorem deleteIfEmpty (h : Sound max m (.removeRoomIfEmpty req room ::ₘ R)) :
    Sound max (m.deleteIfEmpty req.channelID room) R := by
  refine ⟨h.coherent.deleteIfEmpty _ _, ?_, h.served.deleteIfEmpty room h.coherent⟩
  unfold Manager.deleteIfEmpty
  split <;> exact h.bounded

end Sound

theorem exec_sound {limit : MaxParticipants} {R : Multiset Cmd} {c : Cmd} (ok : Bool)
    (h : Sound limit.value m (c ::ₘ R)) (hone : OneJoin m (c ::ₘ R) c) :
    Sound limit.value (exec limit.value c ok m).1
      ((cmds (exec limit.value c ok m).2 : Multiset Cmd) + R) := by
  have hmax : 0 < limit.value := Nat.lt_of_lt_of_le Nat.zero_lt_two limit.atLeast
  cases c with
  | join req =>
    simp only [exec]
    split
    · next hreq =>
      rw [pushed_run]
      exact h.join hreq hone
    · rw [pushed_nil]
      exact h.drop rfl (by intro r hr; cases hr)
  | reserve req =>
    simp only [exec]
    split
    · next hreserve =>
      rw [pushed_run]
      exact h.reserve hmax hreserve
    · next hreserve =>
      rw [pushed_nil]
      exact h.reserve_none hmax hreserve
  | createPeer req room =>
    simp only [exec]
    split
    · rw [pushed_run]
      exact ⟨h.coherent, h.bounded, h.served.swap rfl rfl rfl (.inr rfl) rfl⟩
    · unfold abort
      rw [pushed_run]
      exact ⟨h.coherent, h.bounded, h.served.swap rfl rfl rfl (.inl rfl) rfl⟩
  | insert req room =>
    simp only [exec, Manager.insert]
    cases hclosed : m.closed with
    | false =>
      rw [if_neg (by simp)]
      exact (pushed_run _ R).symm ▸ h.addSession hclosed
    | true =>
      rw [if_pos rfl]
      have hswap : m.Served (.cancelReservation req room ::ₘ R) :=
        h.served.swap rfl rfl rfl (.inl rfl) rfl
      exact (pushed_run _ R).symm ▸ ⟨h.coherent, h.bounded, hswap⟩
  | cancelReservation req room =>
    simp only [exec]
    rw [pushed_run]
    exact h.cancelReservation
  | checkEmpty req room =>
    simp only [exec]
    split
    · rw [pushed_run]
      exact ⟨h.coherent, h.bounded, h.served.swap rfl rfl rfl (.inl rfl) rfl⟩
    · next hfull =>
      rw [pushed_nil]
      refine h.drop rfl fun r hr => ?_
      cases hr
      exact hfull
  | removeRoomIfEmpty req room =>
    simp only [exec]
    rw [pushed_nil]
    exact h.deleteIfEmpty
  | synchronizeTracks req =>
    have hdrop := h.drop rfl (by intro r hr; cases hr)
    simp only [exec]
    split
    · rw [pushed_nil]
      exact hdrop
    · rw [pushed_run]
      exact hdrop.start rfl
  | leave connectionID | failSession value =>
    simp only [exec]
    rw [pushed_nil]
    exact (h.drop rfl (by intro r hr; cases hr)).leave _ _
  | close =>
    simp only [exec]
    rw [pushed_nil]
    have hdrop := h.drop rfl (by intro r hr; cases hr)
    exact ⟨hdrop.coherent.close, hdrop.bounded, hdrop.served.close⟩

theorem sound_of_reachable {limit : MaxParticipants} {cfg : Config Manager Empty Cmd}
    (h : (machine limit).Reachable (fun _ => True) OneJoin Manager.new cfg) :
    Sound limit.value cfg.state cfg.pending := by
  refine h.induction (P := Sound limit.value) (sound_new limit.value) ?_ ?_
  · intro m S op _ hsound
    cases op <;> exact (pushed_run _ S).symm ▸ hsound.start rfl
  · intro cfg i c ok m' new rest R _ hfires hguard hsound
    have hexec : (exec limit.value c ok cfg.state) = (m', new) := Option.some.inj hfires.exec
    have hstep := exec_sound ok hsound hguard
    rw [hexec] at hstep
    exact hstep

/-- A room is live while the manager lists it or someone is, or is about to be, in it. -/
def Manager.Live (m : Manager) (r : RoomID) : Prop :=
  m.rooms.lookup (m.heap r).id = some r ∨ ¬(m.heap r).Empty

/-- The rooms of the voice SFU, with the `Join`s in flight. -/
structure RoomsKept (limit : MaxParticipants) (m : Manager) (S : Multiset Cmd) : Prop where
  capacity : ∀ r, (m.heap r).sessions.keys.length + (m.heap r).reservations ≤ limit.value
  /-- The reservations of a room are those of the `Join`s in flight for it. -/
  reservations : ∀ r, (m.heap r).reservations = holders S r
  /-- A session is in its room, which is the one listed for its channel. -/
  attached : ∀ conn v, m.sessions.lookup conn = some v →
    (m.heap v.room).sessions.lookup conn = some v ∧ m.rooms.lookup v.channelID = some v.room
  /-- Until `Close`, whoever is in a room is a session of the manager. -/
  released : m.closed = false → ∀ r conn v, (m.heap r).sessions.lookup conn = some v →
    m.sessions.lookup conn = some v ∧ v.room = r
  /-- A channel has at most one live room. -/
  unique : ∀ r r', m.Live r → m.Live r' → (m.heap r).id = (m.heap r').id → r = r'
  /-- Once no `Join` is in flight, every listed room has a session. -/
  cleaned : (∀ b ∈ S, b.joining = none) → ∀ ch r, m.rooms.lookup ch = some r →
    (m.heap r).sessions.keys ≠ []

theorem Sound.attached (h : Sound max m S) : ∀ conn v, m.sessions.lookup conn = some v →
      (m.heap v.room).sessions.lookup conn = some v ∧ m.rooms.lookup v.channelID = some v.room := by
  intro conn v hv
  obtain ⟨-, hid, hroom⟩ := h.coherent.attached conn v hv
  refine ⟨hroom, ?_⟩
  cases hclosed : m.closed with
  | false =>
    rw [← hid]
    exact h.coherent.occupied hclosed _ (Room.not_empty_of_lookup hroom)
  | true =>
    rw [(h.coherent.shut hclosed).2 conn] at hv
    cases hv

theorem Sound.unique (h : Sound max m S) :
    ∀ r r', m.Live r → m.Live r' → (m.heap r).id = (m.heap r').id → r = r' := by
  obtain ⟨-, -, -, -, hocc, halone, hshut⟩ := h.coherent
  unfold Manager.Live
  cases hclosed : m.closed with
  | false | true => grind

theorem Sound.cleaned (h : Sound max m S) (hquiet : ∀ b ∈ S, b.joining = none) :
    ∀ ch r, m.rooms.lookup ch = some r → (m.heap r).sessions.keys ≠ [] := by
  intro ch r hr hkeys
  have hreserved : (m.heap r).reservations = 0 := by
    rw [h.served.reserved, holders, countP_eq_zero]
    intro b hb hreserved
    have hjoining := hquiet b hb
    cases b <;> simp [Cmd.reserved, Cmd.joining] at hreserved hjoining
  obtain ⟨b, hb, hclearing⟩ := h.served.cleared ch r hr ⟨hkeys, hreserved⟩
  have hjoining := hquiet b hb
  cases b <;> simp [Cmd.clearing, Cmd.joining] at hclearing hjoining

/-- **Voice rooms never exceed their capacity and never leak.** -/
theorem voice_rooms_kept (limit : MaxParticipants) {cfg : Config Manager Empty Cmd}
    (h : (machine limit).Reachable (fun _ => True) OneJoin Manager.new cfg) :
    RoomsKept limit cfg.state cfg.pending := by
  have hsound := sound_of_reachable h
  exact ⟨hsound.bounded, hsound.served.reserved, hsound.attached, hsound.coherent.released,
    hsound.unique, hsound.cleaned⟩

namespace Sample

def request (connectionID : String) : JoinRequest :=
  ⟨connectionID, 7, 3, 5, false, false⟩

/-- Two connections enter one channel; the first fails to set up its peer connection after the
second has reserved its place. -/
def schedule : List (Machine.Move Bool Op) :=
  [.start (.join (request "a")), .start (.join (request "b")), .step 0 true, .step 0 true,
    .step 1 true, .step 1 true, .step 0 false, .step 0 true, .step 0 true, .step 1 true,
    .step 1 true, .step 1 true]

end Sample

/-- One room is left, with the session of the second connection. -/
theorem voice_rooms_kept_joined : ∃ cfg : Config Manager Empty Cmd,
    (cfg.state.rooms.keys = [5] ∧ cfg.state.sessions.keys = ["b"] ∧ cfg.Quiescent) ∧
      RoomsKept defaultMaxParticipants cfg.state cfg.pending := by
  obtain ⟨cfg, hrun, hstate⟩ : ∃ cfg,
      (machine defaultMaxParticipants).Reachable (fun _ => True) OneJoin Manager.new cfg ∧
        cfg.state.rooms.keys = [5] ∧ cfg.state.sessions.keys = ["b"] ∧ cfg.Quiescent :=
    Machine.exists_reachable_of_play Sample.schedule (by decide +kernel)
  exact ⟨cfg, hstate, voice_rooms_kept defaultMaxParticipants hrun⟩

end Voxhold.Voice
