/-
# Voxhold.Stream.RoomLimits — the limits of the stream SFU hold in every run

The viewers and reservations of a room stay within `maxViewers`: a viewer enters with the
reservation of its own watch, and the reservations are exactly those of the watches in flight
(`Accounted`). A channel has at most `MaxChannelPublishers` rooms, counted where a room is listed
(`Limited`).
-/

import Voxhold.Stream.Rooms

namespace Voxhold.Stream

open Voxhold.Lib Multiset Manager Nat
open Voxhold.Hub (maxChannelPublishers)

/-! ## The watches in flight -/

namespace Cmd

/-- The room that a start or watch has hold of. -/
def room : Cmd → Option RoomID
  | .createPublisherPeer _ room | .setPublisher _ room | .registerPublisher _ room _
  | .removeRoom _ room | .reserveViewer _ room | .createViewerPeer _ room | .registerViewer _ room
  | .cancelViewerReservation _ room => some room
  | _ => none

/-- The room in which a watch holds a reservation. -/
def reserved : Cmd → Option RoomID
  | .createViewerPeer _ room | .registerViewer _ room | .cancelViewerReservation _ room => some room
  | _ => none

theorem room_of_reserved {b : Cmd} {r : RoomID} (h : b.reserved = some r) : b.room = some r := by
  cases b <;> simp_all [reserved, room]

end Cmd

/-- The number of watches in flight that hold a reservation in the room. -/
def holders (S : Multiset Cmd) (room : RoomID) : Nat :=
  S.countP fun b => b.reserved = some room

theorem holders_cons (b : Cmd) (R : Multiset Cmd) (room : RoomID) :
    holders (b ::ₘ R) room = holders R room + if b.reserved = some room then 1 else 0 :=
  countP_cons ..

/-! ## Viewers and reservations -/

/-- The reservations of the rooms are those of the watches in flight, and with them no room has more
viewers than it may. -/
structure Accounted (maxViewers : Nat) (m : Manager) (S : Multiset Cmd) : Prop where
  fresh : ∀ r, m.nextObject ≤ r → (m.heap r).reservations = 0
  allocated : ∀ b ∈ S, ∀ r, b.room = some r → r < m.nextObject
  reserved : ∀ r, (m.heap r).reservations = holders S r
  bounded : ∀ r, (m.heap r).seats.used ≤ maxViewers

namespace Accounted

variable {maxViewers : Nat} {m m' : Manager} {b : Cmd} {N R : Multiset Cmd} {room : RoomID}
  {value : Room}

theorem step (h : Accounted maxViewers m (b ::ₘ R)) (hnext : m.nextObject ≤ m'.nextObject)
    (hnew : ∀ c ∈ N, ∀ r, c.room = some r → r < m'.nextObject)
    (hreserved : ∀ r, (m'.heap r).reservations + (if b.reserved = some r then 1 else 0) =
      (m.heap r).reservations + holders N r) (hbounded : ∀ r, (m'.heap r).seats.used ≤ maxViewers) :
    Accounted maxViewers m' (N + R) where
  fresh r hr := by
    have hold := h.fresh r (le_trans hnext hr)
    have hnone : holders N r = 0 := by
      refine countP_eq_zero.mpr fun c hc hreserved => ?_
      exact absurd (hnew c hc r (Cmd.room_of_reserved hreserved)) (not_lt.mpr hr)
    have hchange := hreserved r
    omega
  allocated c hc r hr := by
    rcases mem_add.mp hc with hc | hc
    · exact hnew c hc r hr
    · exact lt_of_lt_of_le (h.allocated c (mem_cons_of_mem hc) r hr) hnext
  reserved r := by
    have hold := h.reserved r
    have hchange := hreserved r
    rw [holders_cons] at hold
    rw [holders, countP_add, ← holders, ← holders]
    omega
  bounded := hbounded

end Accounted

/-! ## What a step does to the rooms that exist -/

namespace Manager

/-- From `m` to `m'` no room is listed anew and no room moves to another channel. -/
structure Within (m m' : Manager) : Prop where
  nextObject : m.nextObject ≤ m'.nextObject
  channel : ∀ r, (m'.heap r).id = (m.heap r).id ∧ (m'.heap r).serverID = (m.heap r).serverID
  rooms : m'.rooms.entries.Sublist m.rooms.entries

/-- From `m` to `m'` no room gets a reservation or loses one, and none gets a viewer. -/
structure Fewer (m m' : Manager) : Prop where
  nextObject : m.nextObject ≤ m'.nextObject
  reservations : ∀ r, (m'.heap r).reservations = (m.heap r).reservations
  used : ∀ r, (m'.heap r).seats.used ≤ (m.heap r).seats.used

variable {m m' : Manager} {room : RoomID} {value : Room}

theorem Within.refl (m : Manager) : m.Within m :=
  ⟨le_refl _, fun _ => ⟨rfl, rfl⟩, List.Sublist.refl _⟩

theorem Fewer.refl (m : Manager) : m.Fewer m :=
  ⟨le_refl _, fun _ => rfl, fun _ => le_refl _⟩

theorem Within.store (hid : value.id = (m.heap room).id)
    (hserver : value.serverID = (m.heap room).serverID) : m.Within (m.store room value) := by
  refine ⟨le_refl _, fun r => ?_, List.Sublist.refl _⟩
  rw [heap_store]
  split
  · next heq =>
    rw [heq]
    exact ⟨hid, hserver⟩
  · exact ⟨rfl, rfl⟩

theorem Fewer.store (hreservations : value.reservations = (m.heap room).reservations)
    (hused : value.seats.used ≤ (m.heap room).seats.used) : m.Fewer (m.store room value) := by
  refine ⟨le_refl _, fun r => ?_, fun r => ?_⟩
  all_goals
    rw [heap_store]
    split
  · next heq => rw [heq, hreservations]
  · rfl
  · next heq => rw [heq]; exact hused
  · exact le_refl _

theorem leave_within (m : Manager) (conn : String) (expected : Option Session) :
    m.Within (m.leave conn expected) ∧ m.Fewer (m.leave conn expected) := by
  rcases m.leave_eq conn expected with heq | ⟨v, -, ⟨-, heq⟩ | ⟨-, heq⟩⟩
  · rw [heq]
    exact ⟨Within.refl m, Fewer.refl m⟩
  · rw [heq]
    have hwithin : m.Within (m.store v.room (m.heap v.room).closeSnapshot.1) := Within.store rfl rfl
    have hfewer : m.Fewer (m.store v.room (m.heap v.room).closeSnapshot.1) :=
      Fewer.store rfl (Nat.add_le_add_right (Nat.zero_le _) _)
    exact ⟨⟨hwithin.nextObject, hwithin.channel, List.kerase_sublist _ _⟩,
      ⟨hfewer.nextObject, hfewer.reservations, hfewer.used⟩⟩
  · rw [heq]
    have hwithin : m.Within (m.store v.room ((m.heap v.room).removeViewer conn)) :=
      Within.store rfl rfl
    have hfewer : m.Fewer (m.store v.room ((m.heap v.room).removeViewer conn)) :=
      Fewer.store rfl (Seats.used_vacate_le conn)
    exact ⟨⟨hwithin.nextObject, hwithin.channel, hwithin.rooms⟩,
      ⟨hfewer.nextObject, hfewer.reservations, hfewer.used⟩⟩

theorem setPublisher_within {req : StartRequest} {v : Session}
    (h : m.setPublisher req room = some (m', v)) : m.Within m' ∧ m.Fewer m' := by
  obtain ⟨-, rfl, rfl⟩ := setPublisher_eq_some h
  have hwithin : m.Within (m.store room
      { m.heap room with publisher := some (m.newPublisher req room) }) := Within.store rfl rfl
  have hfewer : m.Fewer (m.store room
      { m.heap room with publisher := some (m.newPublisher req room) }) :=
    Fewer.store rfl (le_refl _)
  exact ⟨⟨le_succ _, hwithin.channel, hwithin.rooms⟩,
    ⟨le_succ _, hfewer.reservations, hfewer.used⟩⟩

theorem removeRoom_within (m : Manager) (conn : String) (room : RoomID) :
    m.Within (m.removeRoom conn room) ∧ m.Fewer (m.removeRoom conn room) := by
  unfold removeRoom
  split
  · exact ⟨⟨le_refl _, fun _ => ⟨rfl, rfl⟩, List.kerase_sublist _ _⟩,
      ⟨le_refl _, fun _ => rfl, fun _ => le_refl _⟩⟩
  · exact ⟨Within.refl m, Fewer.refl m⟩

theorem close_within (m : Manager) : m.Within m.close ∧ m.Fewer m.close :=
  ⟨⟨le_refl _, fun _ => ⟨rfl, rfl⟩, List.nil_sublist _⟩,
    ⟨le_refl _, fun _ => rfl, fun _ => le_refl _⟩⟩

end Manager

/-! ## The rooms of a channel -/

/-- The listed rooms exist, and no channel has too many. -/
structure Manager.Limited (m : Manager) : Prop where
  listed : ∀ e ∈ m.rooms.entries, e.2 < m.nextObject
  publishers : ∀ serverID channelID, m.publishers serverID channelID ≤ maxChannelPublishers

namespace Manager.Limited

variable {m m' : Manager}

theorem within (h : m.Limited) (hm : m.Within m') : m'.Limited where
  listed e he := lt_of_lt_of_le (h.listed e (hm.rooms.subset he)) hm.nextObject
  publishers serverID channelID := by
    refine le_trans ?_ (h.publishers serverID channelID)
    unfold Manager.publishers Room.Serves
    simp only [(hm.channel _).1, (hm.channel _).2]
    exact hm.rooms.countP_le

theorem addRoom (h : m.Limited) {req : StartRequest}
    (hlimit : m.publishers req.serverID req.channelID < maxChannelPublishers) :
    (m.addRoom req).Limited := by
  -- the rooms that were listed before are not the new object
  have hold : ∀ e ∈ m.rooms.entries.kerase req.connectionID,
      (m.addRoom req).heap e.2 = m.heap e.2 := by
    intro e he
    have hlt := h.listed e ((List.kerase_sublist _ _).subset he)
    exact (heap_store ..).trans (if_neg (Nat.ne_of_lt hlt))
  constructor
  · intro e he
    rcases List.mem_cons.mp he with rfl | he
    · exact lt_succ_self _
    · exact lt_succ_of_lt (h.listed e ((List.kerase_sublist _ _).subset he))
  · intro serverID channelID
    have hcount : (m.rooms.entries.kerase req.connectionID).countP (fun e =>
        ((m.addRoom req).heap e.2).Serves serverID channelID) ≤ m.publishers serverID
          channelID := by
      rw [List.countP_congr (q := fun e : (_ : String) × RoomID =>
        decide ((m.heap e.2).Serves serverID channelID))]
      · exact (List.kerase_sublist _ _).countP_le
      · intro e he
        rw [hold e he]
    have hnew : (m.addRoom req).heap m.nextObject =
        Room.new req.serverID req.connectionID req.channelID req.renditions :=
      (heap_store ..).trans (if_pos rfl)
    show (⟨req.connectionID, m.nextObject⟩ :: m.rooms.entries.kerase req.connectionID).countP _ ≤ _
    rw [List.countP_cons]
    split
    · next hroom =>
      -- the new room is one of this channel, which had room for it
      simp only [hnew, Room.new, Room.Serves, decide_eq_true_eq] at hroom
      rw [← hroom.1, ← hroom.2] at hcount ⊢
      omega
    · exact le_trans hcount (h.publishers serverID channelID)

end Manager.Limited

theorem Manager.findRoomLocked_listed {m : Manager} {serverID channelID : Int}
    {publisherID : String}
    {room : RoomID} (h : m.findRoomLocked serverID channelID publisherID = some room) :
    ∃ e ∈ m.rooms.entries, e.2 = room := by
  unfold findRoomLocked at h
  split at h
  · have hlookup : m.rooms.lookup publisherID = some room := by
      obtain ⟨hlookup, -⟩ := Option.filter_eq_some_iff.mp h
      exact hlookup
    exact ⟨⟨publisherID, room⟩, AList.mem_lookup_iff.mp hlookup, rfl⟩
  · -- whatever the loop has selected so far is one of the rooms it has seen
    refine List.foldlRecOn (motive := fun selected => selected = some room → _) m.rooms.entries _
      (by intro hnone; cases hnone) (fun selected ih e he hselected => ?_) h
    split at hselected
    · cases hselected
      exact ⟨e, he, rfl⟩
    · exact ih hselected

/-! ## Every run -/

namespace Accounted

variable {maxViewers : Nat} {m m' : Manager} {b b' : Cmd} {R : Multiset Cmd} {room : RoomID}
  {value : Room} {req : StartRequest} {wreq : WatchRequest}

theorem holders_singleton (b : Cmd) (r : RoomID) :
    holders {b} r = if b.reserved = some r then 1 else 0 := by
  rw [← cons_zero, holders_cons]
  exact zero_add _

section

variable (h : Accounted maxViewers m (b ::ₘ R))
include h

theorem next (hm : m.Fewer m')
    (hroom : ∀ r, b'.room = some r → r < m'.nextObject) (hreserved : b'.reserved = b.reserved) :
    Accounted maxViewers m' (b' ::ₘ R) := by
  rw [← singleton_add]
  refine h.step hm.nextObject ?_ (fun r => ?_) fun r => le_trans (hm.used r) (h.bounded r)
  · intro c hc
    obtain rfl := mem_singleton.mp hc
    exact hroom
  · rw [hm.reservations, holders_singleton, hreserved]

theorem last (hm : m.Fewer m') (hreserved : b.reserved = none) : Accounted maxViewers m' R := by
  rw [← zero_add R]
  refine h.step hm.nextObject (fun c hc => absurd hc (notMem_zero c)) (fun r => ?_)
    fun r => le_trans (hm.used r) (h.bounded r)
  rw [hm.reservations, hreserved]
  rfl

theorem head (hb : b.room = some room) : room < m.nextObject :=
  h.allocated b (by simp) room hb

theorem reservations_pos (hb : b.reserved = some room) : 0 < (m.heap room).reservations := by
  rw [h.reserved]
  exact countP_pos.mpr ⟨b, mem_cons_self _ _, hb⟩

end

theorem addRoom (h : Accounted maxViewers m (.insertRoom req ::ₘ R)) :
    Accounted maxViewers (m.addRoom req) (.createPublisherPeer req m.nextObject ::ₘ R) := by
  have hfresh := h.fresh m.nextObject (le_refl _)
  rw [← singleton_add]
  refine h.step (le_succ _) ?_ (fun r => ?_) fun r => ?_
  · intro c hc r hr
    obtain rfl := mem_singleton.mp hc
    cases hr
    exact lt_succ_self _
  · rw [holders_singleton]
    show ((m.store m.nextObject _).heap r).reservations + 0 = _
    rw [heap_store]
    split
    · next heq => rw [heq, hfresh]; rfl
    · rfl
  · show ((m.store m.nextObject _).heap r).seats.used ≤ _
    rw [heap_store]
    split
    · exact zero_le _
    · exact h.bounded r

theorem reserveViewer (h : Accounted maxViewers m (.reserveViewer wreq room ::ₘ R))
    (hreserve : (m.heap room).reserveViewer maxViewers = some value) :
    Accounted maxViewers (m.store room value) (.createViewerPeer wreq room ::ₘ R) := by
  obtain ⟨-, -, -, hreserved, -, hused⟩ := Room.reserveViewer_eq_some hreserve
  rw [← singleton_add]
  refine h.step (le_refl _) ?_ (fun r => ?_) fun r => ?_
  · intro c hc r hr
    obtain rfl := mem_singleton.mp hc
    cases hr
    exact h.head rfl
  · rw [holders_singleton, heap_store]
    split
    · next heq => rw [heq, hreserved]; simp [Cmd.reserved]
    · next hne => simp [Cmd.reserved, Ne.symm hne]
  · rw [heap_store]
    split
    · exact hused
    · exact h.bounded r

theorem addViewer (h : Accounted maxViewers m (.registerViewer wreq room ::ₘ R)) :
    Accounted maxViewers (m.addViewer wreq room) (.synchronizeViewerTracks wreq ::ₘ R) := by
  have hpositive := h.reservations_pos rfl
  rw [← singleton_add]
  refine h.step (le_succ _) ?_ (fun r => ?_) fun r => ?_
  · intro c hc r hr
    obtain rfl := mem_singleton.mp hc
    cases hr
  · rw [holders_singleton]
    show ((m.store room _).heap r).reservations + _ = _
    rw [heap_store]
    split
    · next heq =>
      have hreserved : (Cmd.registerViewer wreq room).reserved = some room := rfl
      rw [heq, hreserved, if_pos rfl]
      exact succ_pred_eq_of_pos hpositive
    · next hne => simp [Cmd.reserved, Ne.symm hne]
  · show ((m.store room _).heap r).seats.used ≤ _
    rw [heap_store]
    split
    · exact le_trans (Seats.used_take_le _ _ hpositive) (h.bounded room)
    · exact h.bounded r

theorem cancelViewerReservation
    (h : Accounted maxViewers m (.cancelViewerReservation wreq room ::ₘ R)) :
    Accounted maxViewers (m.store room (m.heap room).cancelViewerReservation) R := by
  have hpositive := h.reservations_pos rfl
  rw [← zero_add R]
  refine h.step (le_refl _) (fun c hc => absurd hc (notMem_zero c)) (fun r => ?_) fun r => ?_
  · rw [heap_store]
    split
    · next heq =>
      have hreserved : (Cmd.cancelViewerReservation wreq room).reserved = some room := rfl
      rw [heq, hreserved, if_pos rfl]
      exact succ_pred_eq_of_pos hpositive
    · next hne =>
      simp only [Cmd.reserved, Option.some.injEq, Ne.symm hne, if_false, add_zero]
      rfl
  · rw [heap_store]
    split
    · exact le_trans Seats.used_cancel_le (h.bounded room)
    · exact h.bounded r

end Accounted

/-- The limits of the SFU, with the watches in flight. -/
structure Limits (maxViewers : Nat) (m : Manager) (S : Multiset Cmd) : Prop where
  limited : m.Limited
  accounted : Accounted maxViewers m S

namespace Limits

variable {maxViewers : Nat} {m m' : Manager} {b b' : Cmd} {R : Multiset Cmd}

section

variable (h : Limits maxViewers m (b ::ₘ R))
include h

theorem next (hm : m.Within m' ∧ m.Fewer m')
    (hroom : ∀ r, b'.room = some r → r < m'.nextObject) (hreserved : b'.reserved = b.reserved) :
    Limits maxViewers m' (b' ::ₘ R) :=
  ⟨h.limited.within hm.1, h.accounted.next hm.2 hroom hreserved⟩

theorem last (hm : m.Within m' ∧ m.Fewer m')
    (hreserved : b.reserved = none) : Limits maxViewers m' R :=
  ⟨h.limited.within hm.1, h.accounted.last hm.2 hreserved⟩

theorem swap (hroom : b'.room = b.room)
    (hreserved : b'.reserved = b.reserved) : Limits maxViewers m (b' ::ₘ R) :=
  h.next ⟨Manager.Within.refl m, Manager.Fewer.refl m⟩
    (fun _ hr => h.accounted.head (hroom ▸ hr)) hreserved

theorem drop (hreserved : b.reserved = none) : Limits maxViewers m R :=
  h.last ⟨Manager.Within.refl m, Manager.Fewer.refl m⟩ hreserved

end

theorem push (h : Limits maxViewers m R) (hroom : b.room = none) :
    Limits maxViewers m (b ::ₘ R) := by
  have hreserved : ∀ r, b.reserved ≠ some r :=
    fun r hr => absurd (Cmd.room_of_reserved hr) (by rw [hroom]; simp)
  refine ⟨h.limited, h.accounted.fresh, forall_mem_cons.mpr ⟨?_, h.accounted.allocated⟩,
    fun r => ?_, h.accounted.bounded⟩
  · rw [hroom]
    intro _ hr
    cases hr
  · rw [holders_cons, if_neg (hreserved r)]
    exact h.accounted.reserved r

end Limits

theorem exec_limits {maxViewers : Nat} {m : Manager} {R : Multiset Cmd} {c : Cmd} (ok : Bool)
    (h : Limits maxViewers m (c ::ₘ R)) : Limits maxViewers (exec maxViewers c ok m).1
      ((cmds (exec maxViewers c ok m).2 : Multiset Cmd) + R) := by
  refine exec_rule (P := Limits maxViewers) ok fun m' after hstep => ?_
  cases hstep with
  | ends hend => exact h.drop (by cases hend <;> rfl)
  | handsOn hhands => exact h.swap (by cases hhands <;> rfl) (by cases hhands <;> rfl)
  | passesOn hpasses => exact h.swap (by cases hpasses <;> rfl) (by cases hpasses <;> rfl)
  | start | watch => exact h.next (m.leave_within _ _) (by intro r hr; cases hr) rfl
  | insertRoom _ hlimit => exact ⟨h.limited.addRoom hlimit, h.accounted.addRoom⟩
  | setPublisher hset =>
    refine h.next (setPublisher_within hset) (fun r hr => ?_) rfl
    exact lt_of_lt_of_le (h.accounted.head hr) (setPublisher_within hset).1.nextObject
  | registerPublisher hregister =>
    obtain ⟨-, -, rfl⟩ := registerPublisher_eq_some hregister
    exact h.next ⟨⟨le_refl _, fun _ => ⟨rfl, rfl⟩, List.Sublist.refl _⟩,
      ⟨le_refl _, fun _ => rfl, fun _ => le_refl _⟩⟩ (by intro r hr; cases hr) rfl
  | removeRoom => exact h.last (m.removeRoom_within _ _) rfl
  | noOffer | noTracks => exact (h.drop rfl).push rfl
  | findRoom hfind =>
    obtain ⟨e, he, rfl⟩ := findRoomLocked_listed hfind
    refine h.next ⟨Manager.Within.refl m, Manager.Fewer.refl m⟩ (fun r hr => ?_) rfl
    cases hr
    exact h.limited.listed e he
  | reserveViewer hreserve =>
    obtain ⟨-, -, -, -, hchannel, -⟩ := Room.reserveViewer_eq_some hreserve
    exact ⟨h.limited.within (Manager.Within.store hchannel.2 hchannel.1),
      h.accounted.reserveViewer hreserve⟩
  | @registerViewer req room =>
    have hwithin : m.Within (m.store room ((m.heap room).addViewer (m.newViewer req room))) :=
      Manager.Within.store rfl rfl
    exact ⟨h.limited.within ⟨le_succ _, hwithin.channel, hwithin.rooms⟩, h.accounted.addViewer⟩
  | cancelViewerReservation =>
    exact ⟨h.limited.within (Manager.Within.store rfl rfl), h.accounted.cancelViewerReservation⟩
  | leave | failSession => exact h.last (m.leave_within _ _) rfl
  | close => exact h.last m.close_within rfl

theorem limits_of_reachable {maxViewers : Nat} {allowed : Op → Prop}
    {guard : Manager → Multiset Cmd → Cmd → Prop} {cfg : Config Manager Empty Cmd}
    (h : (machine maxViewers).Reachable allowed guard Manager.new cfg) :
    Limits maxViewers cfg.state cfg.pending := by
  refine h.induction (P := Limits maxViewers) ⟨⟨?_, ?_⟩, ⟨?_, ?_, ?_, ?_⟩⟩ ?_ ?_
  · intro e he
    cases he
  · exact fun _ _ => zero_le _
  · exact fun _ _ => rfl
  · exact fun b hb => absurd hb (notMem_zero b)
  · exact fun _ => rfl
  · exact fun _ => zero_le _
  · intro m S op _ hlimits
    cases op <;> exact (pushed_run _ S).symm ▸ hlimits.push rfl
  · intro cfg i c ok m' new rest R _ hfires _ hlimits
    have hexec : exec maxViewers c ok cfg.state = (m', new) := Option.some.inj hfires.exec
    have hstep := exec_limits ok hlimits
    rw [hexec] at hstep
    exact hstep

end Voxhold.Stream
