/-
# Voxhold.Realtime.ChatBurst — when a chat burst disconnects a client

All deltas of one channel fold into one marker, its unpins do not. When the lane is full and nothing
is left to fold, it holds EXACTLY one entry for each unpin and each other channel of the burst: the
burst fits if and only if these are at most 128.
-/

import Mathlib.Data.Finset.Card
import Mathlib.Data.List.Count
import Voxhold.Realtime.ChatDelivery

namespace Voxhold.Realtime

open List Bool

/-- An event that `MessageEventPublisher` sends. -/
def IsChatEvent (event : OutgoingEvent) : Prop :=
  ∃ (p : Publication) (encoding : Nat), p.event encoding = some event

def isUnpin (event : OutgoingEvent) : Bool := event.type = .messageUnpinned

/-- The channel whose history an entry of the lane stands for: its own for a delta, the named one
for a marker. -/
def room (event : OutgoingEvent) : Option Int :=
  if event.type = .channelSyncRequired then event.data.subscriptionChannel
  else if 0 < eventMessageChannel event then some (eventMessageChannel event)
  else none

/-- The number of entries a burst needs at least: its unpins, and one for each other channel. -/
def burstSize (events : List OutgoingEvent) : Nat :=
  events.countP isUnpin + (events.filterMap room).toFinset.card

section Rooms

variable {event : OutgoingEvent}

@[simp] theorem room_syncMarker (serverID channelID : Int) :
    room (syncMarker serverID channelID) = some channelID := rfl

theorem room_delta (h : 0 < eventMessageChannel event) :
    room event = some (eventMessageChannel event) := by
  have hsync : event.type ≠ .channelSyncRequired := by
    intro htype
    simp [eventMessageChannel, htype] at h
  simp [room, hsync, h]

theorem IsChatEvent.cases (h : IsChatEvent event) :
    (isUnpin event = true ∧ eventMessageChannel event = 0 ∧ replacementKey event = none) ∨
      (isUnpin event = false ∧ eventMessageChannel event = event.data.channelID) := by
  obtain ⟨p, encoding, hevent⟩ := h
  have htype := Publication.type_eq_unpinned hevent
  cases hunpin : p.isUnpin with
  | true =>
    obtain ⟨hzero, hkey⟩ := Publication.eventMessageChannel_unpin hevent hunpin
    exact Or.inl ⟨by simpa [isUnpin, htype] using hunpin, hzero, hkey⟩
  | false =>
    refine Or.inr ⟨by simpa [isUnpin, htype] using hunpin, ?_⟩
    rw [Publication.eventMessageChannel_event hevent hunpin, Publication.event_channelID hevent]

theorem IsChatEvent.plain (h : IsChatEvent event) :
    event.type.isMedia = false ∧ event.type.isTransient = false ∧
      event.data.isChannelSnapshot = false ∧ event.data.isStream = false := by
  obtain ⟨p, encoding, hevent⟩ := h
  exact Publication.event_plain hevent

end Rooms

/-! ## What the lane knows of a burst -/

/-- The assumptions on a burst: the publisher's events, for rooms with a positive id, where the
reactions of one message always name the same channel. -/
structure Burst (events : List OutgoingEvent) : Prop where
  chat : ∀ x ∈ events, IsChatEvent x
  pos : ∀ x ∈ events, 0 < x.data.channelID
  home : ∀ x ∈ events, ∀ y ∈ events, ∀ value value', x.data = .reactions value →
    y.data = .reactions value' → value.messageID = value'.messageID →
    value.channelID = value'.channelID

/-- `queue` stands for the events `sent`: no unpin is missing, every other channel that was
published to has an entry, and the entry of a channel with a marker is that marker alone. -/
structure StandsFor (queue sent : List OutgoingEvent) : Prop where
  mem : ∀ x ∈ queue, x ∈ sent ∨ IsMarker x
  unpins : queue.countP isUnpin = sent.countP isUnpin
  rooms : ∀ ch, ch ∈ queue.filterMap room ↔ ch ∈ sent.filterMap room
  single : ∀ serverID ch, syncMarker serverID ch ∈ queue → (queue.filterMap room).count ch = 1

section Lane

variable {queue queue' sent events : List OutgoingEvent} {event x : OutgoingEvent}
  {ch : Int}

theorem isUnpin_syncMarker (serverID channelID : Int) :
    isUnpin (syncMarker serverID channelID) = false := rfl

theorem Burst.room_eq_none_iff (h : Burst events) (hx : x ∈ events ∨ IsMarker x) :
    room x = none ↔ isUnpin x = true := by
  rcases hx with hx | ⟨serverID, ch, rfl⟩
  · rcases (h.chat x hx).cases with ⟨hunpin, hzero, -⟩ | ⟨hunpin, hch⟩
    · have htype : x.type ≠ .channelSyncRequired := by
        intro htype
        simp [isUnpin, htype] at hunpin
      simp [room, htype, hzero, hunpin]
    · simp [room_delta (hch ▸ h.pos x hx), hunpin]
  · simp [isUnpin_syncMarker]

theorem length_eq_of_room (h : ∀ x ∈ queue, room x = none ↔ isUnpin x = true) :
    queue.length = queue.countP isUnpin + (queue.filterMap room).length := by
  induction queue with
  | nil => rfl
  | cons x queue ih =>
    have htail := ih fun y hy => h y (mem_cons_of_mem _ hy)
    have hx := h x mem_cons_self
    cases hroom : room x with
    | none =>
      simp only [length_cons, filterMap_cons, hroom, countP_cons, hx.mp hroom,
        if_true]
      omega
    | some ch =>
      have hunpin : isUnpin x = false := by
        by_contra hne
        rw [not_eq_false] at hne
        simp [hx.mpr hne] at hroom
      simp only [length_cons, filterMap_cons, hroom, countP_cons, hunpin,
        false_eq_true, if_false]
      omega

theorem StandsFor.burstSize_eq (h : StandsFor queue sent) :
    burstSize sent = queue.countP isUnpin + (queue.filterMap room).toFinset.card := by
  have hrooms : (sent.filterMap room).toFinset = (queue.filterMap room).toFinset := by
    ext ch
    simp only [mem_toFinset]
    exact (h.rooms ch).symm
  rw [burstSize, h.unpins, hrooms]

theorem StandsFor.burstSize_le (h : StandsFor queue sent) (hburst : Burst sent) :
    burstSize sent ≤ queue.length := by
  rw [h.burstSize_eq, length_eq_of_room fun x hx => hburst.room_eq_none_iff (h.mem x hx)]
  exact Nat.add_le_add_left (toFinset_card_le _) _

theorem StandsFor.length_eq (h : StandsFor queue sent) (hburst : Burst sent)
    (hfolded : ∀ x ∈ queue, eventMessageChannel x ≤ 0) : queue.length = burstSize sent := by
  have hnodup : (queue.filterMap room).Nodup := by
    refine nodup_iff_count_le_one.mpr fun ch => ?_
    by_cases hch : ch ∈ queue.filterMap room
    · obtain ⟨x, hx, hroom⟩ := mem_filterMap.mp hch
      rcases h.mem x hx with hsent | ⟨serverID, ch', rfl⟩
      · -- a published event that stands for a channel is a delta
        exfalso
        rcases (hburst.chat x hsent).cases with ⟨hunpin, -, -⟩ | ⟨-, hdelta⟩
        · rw [(hburst.room_eq_none_iff (Or.inl hsent)).mpr hunpin] at hroom
          cases hroom
        · have := hfolded x hx
          have := hburst.pos x hsent
          omega
      · obtain rfl : ch' = ch := by simpa using hroom
        exact (h.single serverID ch' hx).le
    · rw [count_eq_zero_of_not_mem hch]
      exact Nat.zero_le _
  rw [h.burstSize_eq, toFinset_card_of_nodup hnodup,
    length_eq_of_room fun x hx => hburst.room_eq_none_iff (h.mem x hx)]

/-! ## Compaction keeps the account -/

theorem Burst.room_eq_some (h : Burst sent) (hx : x ∈ sent ∨ IsMarker x)
    (hroom : room x = some ch) :
    (eventMessageChannel x = ch ∧ 0 < ch) ∨ ∃ serverID, x = syncMarker serverID ch := by
  rcases hx with hx | ⟨serverID, ch', rfl⟩
  · rcases (h.chat x hx).cases with ⟨hunpin, -, -⟩ | ⟨-, hch⟩
    · rw [(h.room_eq_none_iff (Or.inl hx)).mpr hunpin] at hroom
      cases hroom
    · have hpos : 0 < eventMessageChannel x := hch ▸ h.pos x hx
      rw [room_delta hpos] at hroom
      cases hroom
      exact Or.inl ⟨rfl, hpos⟩
  · obtain rfl : ch' = ch := by simpa using hroom
    exact Or.inr ⟨serverID, rfl⟩

theorem Burst.countP_filter (h : Burst sent) (hqueue : ∀ x ∈ queue, x ∈ sent ∨ IsMarker x)
    (hpos : 0 < ch) :
    (queue.filter (eventMessageChannel · ≠ ch)).countP isUnpin = queue.countP isUnpin := by
  rw [List.countP_filter]
  refine List.countP_congr fun x hx => ?_
  simp only [and_eq_true, decide_eq_true_eq, and_iff_left_iff_imp]
  intro hunpin hch
  have hnone := (h.room_eq_none_iff (hqueue x hx)).mpr hunpin
  rw [room_delta (hch ▸ hpos)] at hnone
  cases hnone

theorem count_rooms_filter {other : Int} (hpos : 0 < ch) (hne : other ≠ ch)
    (queue : List OutgoingEvent) :
    ((queue.filter (eventMessageChannel · ≠ ch)).filterMap room).count other =
      (queue.filterMap room).count other := by
  induction queue with
  | nil => rfl
  | cons x queue ih =>
    by_cases hx : eventMessageChannel x = ch
    · have hroom : room x = some ch := hx ▸ room_delta (hx ▸ hpos)
      simp only [filter_cons, hx, ne_eq, not_true_eq_false, decide_false, false_eq_true,
        if_false, filterMap_cons, hroom, count_cons_of_ne (Ne.symm hne)]
      exact ih
    · simp only [filter_cons, ne_eq, hx, not_false_eq_true, decide_true, if_true,
        filterMap_cons]
      cases room x with
      | none => exact ih
      | some ch' =>
        simp only [count_cons]
        rw [ih]

theorem Burst.count_rooms_eq_zero (h : Burst sent) (hqueue : ∀ x ∈ queue, x ∈ sent ∨ IsMarker x)
    (hdelta : ∀ x ∈ queue, eventMessageChannel x ≠ ch)
    (hmarker : ∀ serverID, syncMarker serverID ch ∉ queue) :
    (queue.filterMap room).count ch = 0 := by
  refine count_eq_zero_of_not_mem fun hmem => ?_
  obtain ⟨x, hx, hroom⟩ := mem_filterMap.mp hmem
  rcases h.room_eq_some (hqueue x hx) hroom with ⟨hch, -⟩ | ⟨serverID, rfl⟩
  · exact hdelta x hx hch
  · exact hmarker serverID hx

theorem count_rooms_insert {pre post : List OutgoingEvent} (hroom : room x = some ch)
    (c : Int) : ((pre ++ x :: post).filterMap room).count c =
      (pre.filterMap room).count c + (post.filterMap room).count c + if ch = c then 1 else 0 := by
  simp only [filterMap_append, filterMap_cons, hroom, count_append, count_cons,
    beq_iff_eq]
  omega

section Compact

variable {pre post : List OutgoingEvent} {delta : OutgoingEvent} {ch : Int}

section

variable (h : StandsFor (pre ++ delta :: post) sent)
include h

theorem StandsFor.mem_around (hx : x ∈ pre ++ post) : x ∈ sent ∨ IsMarker x := by
  refine h.mem x ?_
  rcases mem_append.mp hx with hx | hx <;> simp [hx]

theorem StandsFor.marker_not_mem
    (hroom : room delta = some ch) (serverID : Int) : syncMarker serverID ch ∉ pre ++ post := by
  intro hs
  have hentry : 0 < ((pre ++ post).filterMap room).count ch :=
    count_pos_iff.mpr (mem_filterMap.mpr ⟨_, hs, rfl⟩)
  have hone := h.single serverID ch (by rcases mem_append.mp hs with hs | hs <;> simp [hs])
  rw [count_rooms_insert hroom, if_pos rfl] at hone
  rw [filterMap_append, count_append] at hentry
  omega

theorem StandsFor.count_compact_self
    (hburst : Burst sent) (serverID : Int) (hroom : room delta = some ch)
    (hpre : ∀ x ∈ pre, eventMessageChannel x ≠ ch) : ((pre ++ syncMarker serverID ch ::
      post.filter (eventMessageChannel · ≠ ch)).filterMap room).count ch = 1 := by
  have hbefore : (pre.filterMap room).count ch = 0 := by
    refine hburst.count_rooms_eq_zero (fun x hx => ?_) hpre fun s hs => ?_
    · exact h.mem_around (mem_append_left _ hx)
    · exact h.marker_not_mem hroom s (mem_append_left _ hs)
  have hafter : ((post.filter (eventMessageChannel · ≠ ch)).filterMap room).count ch = 0 := by
    refine hburst.count_rooms_eq_zero (fun x hx => ?_) (fun x hx => ?_) fun s hs => ?_
    · exact h.mem_around (mem_append_right _ (mem_filter.mp hx).1)
    · simpa using (mem_filter.mp hx).2
    · exact h.marker_not_mem hroom s (mem_append_right _ (mem_filter.mp hs).1)
  rw [count_rooms_insert (room_syncMarker serverID ch), hbefore, hafter, if_pos rfl]

end

theorem count_compact_other (serverID : Int) (hroom : room delta = some ch) (hpos : 0 < ch)
    {c : Int} (hc : c ≠ ch) : ((pre ++ syncMarker serverID ch ::
      post.filter (eventMessageChannel · ≠ ch)).filterMap room).count c =
        ((pre ++ delta :: post).filterMap room).count c := by
  rw [count_rooms_insert hroom, count_rooms_insert (room_syncMarker serverID ch),
    count_rooms_filter hpos hc]

theorem StandsFor.compact
    (h : StandsFor (pre ++ delta :: post) sent) (hburst : Burst sent) (serverID : Int)
    (hpos : 0 < eventMessageChannel delta)
    (hpre : ∀ x ∈ pre, eventMessageChannel x ≠ eventMessageChannel delta) :
    StandsFor (pre ++ syncMarker serverID (eventMessageChannel delta) ::
      post.filter (eventMessageChannel · ≠ eventMessageChannel delta)) sent := by
  have hroom : room delta = some (eventMessageChannel delta) := room_delta hpos
  have hself := h.count_compact_self hburst serverID hroom hpre
  constructor
  · intro x hx
    simp only [mem_append, mem_cons, mem_filter] at hx
    rcases hx with hx | rfl | hx
    · exact h.mem_around (mem_append_left _ hx)
    · exact Or.inr ⟨_, _, rfl⟩
    · exact h.mem_around (mem_append_right _ hx.1)
  · have hdelta : isUnpin delta = false := by
      by_contra hne
      rw [not_eq_false] at hne
      rw [(hburst.room_eq_none_iff (h.mem delta (by simp))).mpr hne] at hroom
      cases hroom
    rw [← h.unpins]
    simp only [countP_append, countP_cons, isUnpin_syncMarker, hdelta,
      false_eq_true, if_false]
    rw [hburst.countP_filter (fun x hx => h.mem_around (mem_append_right _ hx)) hpos]
  · intro c
    rw [← h.rooms c, ← count_pos_iff, ← count_pos_iff]
    by_cases hc : c = eventMessageChannel delta
    · -- the channel had the delta and has the marker
      rw [hc, hself, count_rooms_insert hroom, if_pos rfl]
      simp
    · rw [count_compact_other serverID hroom hpos hc]
  · intro s c hs
    by_cases hc : c = eventMessageChannel delta
    · rw [hc, hself]
    · rw [count_compact_other serverID hroom hpos hc]
      refine h.single s c ?_
      simp only [mem_append, mem_cons, mem_filter] at hs ⊢
      rcases hs with hs | hs | hs
      · exact Or.inl hs
      · have : c = eventMessageChannel delta := by simpa using congrArg room hs
        exact absurd this hc
      · exact Or.inr (Or.inr hs.1)

end Compact

theorem StandsFor.squeezed (h : StandsFor queue sent) (hburst : Burst sent)
    (hsq : Squeezed queue queue') : StandsFor queue' sent := by
  induction hsq with
  | refl => exact h
  | @evict pre post queued _ htransient ih =>
    -- neither a chat event nor a marker is transient
    exfalso
    rcases ih.mem queued (by simp) with hsent | ⟨_, _, rfl⟩
    · simp [(hburst.chat queued hsent).plain.2.1] at htransient
    · cases htransient
  | compact serverID _ hpos hpre ih => exact ih.compact hburst serverID hpos hpre

/-! ## One enqueue -/

theorem Burst.subset (h : Burst events) (hsub : ∀ x ∈ sent, x ∈ events) : Burst sent where
  chat x hx := h.chat x (hsub x hx)
  pos x hx := h.pos x (hsub x hx)
  home x hx y hy := h.home x (hsub x hx) y (hsub y hy)

theorem StandsFor.fold (h : StandsFor queue sent) (hunpin : isUnpin event = false)
    (hroom : room event = some ch) (hentry : ch ∈ queue.filterMap room) :
    StandsFor queue (sent ++ [event]) where
  mem x hx := (h.mem x hx).imp_left (mem_append_left _)
  unpins := by simp [h.unpins, hunpin]
  rooms c := by
    rw [filterMap_append, mem_append, ← h.rooms c]
    have hlast : [event].filterMap room = [ch] := by simp [hroom]
    rw [hlast, mem_singleton]
    exact ⟨Or.inl, fun hc => hc.elim id fun heq => heq ▸ hentry⟩
  single := h.single

theorem StandsFor.append (h : StandsFor queue sent)
    (hroom : ∀ ch, room event = some ch → ∀ serverID, syncMarker serverID ch ∉ queue)
    (hevent : ¬ IsMarker event) : StandsFor (queue ++ [event]) (sent ++ [event]) where
  mem x hx := by
    rcases mem_append.mp hx with hx | hx
    · exact (h.mem x hx).imp_left (mem_append_left _)
    · exact Or.inl (mem_append_right _ hx)
  unpins := by rw [countP_append, countP_append, h.unpins]
  rooms c := by
    rw [filterMap_append, filterMap_append, mem_append, mem_append, h.rooms c]
  single serverID ch hs := by
    rcases mem_append.mp hs with hold | hnew
    · rw [filterMap_append, count_append, h.single serverID ch hold]
      have hlast : ([event].filterMap room).count ch = 0 := by
        refine count_eq_zero_of_not_mem fun hmem => ?_
        obtain ⟨x, hx, hx'⟩ := mem_filterMap.mp hmem
        obtain rfl := mem_singleton.mp hx
        exact hroom ch hx' serverID hold
      rw [hlast]
    · exact absurd ⟨serverID, ch, (mem_singleton.mp hnew).symm⟩ hevent

theorem IsChatEvent.not_marker (h : IsChatEvent event) : ¬ IsMarker event := by
  rintro ⟨serverID, ch, rfl⟩
  obtain ⟨p, encoding, hevent⟩ := h
  have htype := congrArg (Option.map OutgoingEvent.type) hevent
  cases p <;> simp [Publication.event, messageCreatedEvent, roomEvent, syncMarker] at htype

theorem IsChatEvent.not_unpin_of_delta (h : IsChatEvent event)
    (hdelta : 0 < eventMessageChannel event) : isUnpin event = false := by
  rcases h.cases with ⟨-, hzero, -⟩ | ⟨hunpin, -⟩
  · omega
  · exact hunpin

theorem no_marker_of_key {key : ReplacementKey} (h : replacementKey x = some key) :
    ¬ IsMarker x := by
  rintro ⟨serverID, ch, rfl⟩
  cases h

theorem StandsFor.replace {pre post : List OutgoingEvent} {queued : OutgoingEvent}
    (h : StandsFor (pre ++ queued :: post) sent) (hqueued : isUnpin queued = false)
    (hunpin : isUnpin event = false) (hroom : room event = room queued)
    (hch : room queued = some ch) (hevent : ¬ IsMarker event) :
    StandsFor (pre ++ event :: post) (sent ++ [event]) := by
  have hrooms : (pre ++ event :: post).filterMap room = (pre ++ queued :: post).filterMap room := by
    simp only [filterMap_append, filterMap_cons, hroom]
  have hfold := h.fold hunpin (hroom.trans hch) (mem_filterMap.mpr ⟨queued, by simp, hch⟩)
  constructor
  · intro x hx
    simp only [mem_append, mem_cons] at hx
    rcases hx with hx | rfl | hx
    · exact hfold.mem x (by simp [hx])
    · exact Or.inl (by simp)
    · exact hfold.mem x (by simp [hx])
  · rw [← hfold.unpins]
    simp only [countP_append, countP_cons, hqueued, hunpin]
  · rw [hrooms]
    exact hfold.rooms
  · intro serverID c hs
    rw [hrooms]
    refine hfold.single serverID c ?_
    simp only [mem_append, mem_cons] at hs ⊢
    rcases hs with hs | hs | hs
    · exact Or.inl hs
    · exact absurd ⟨serverID, c, hs.symm⟩ hevent
    · exact Or.inr (Or.inr hs)

theorem Burst.same_key (hburst : Burst events) {queued : OutgoingEvent} {key : ReplacementKey}
    (hevent : event ∈ events) (hmem : queued ∈ events)
    (hkey : replacementKey event = some key) (hqueued : replacementKey queued = some key) :
    isUnpin queued = false ∧ isUnpin event = false ∧ room event = room queued ∧
      room queued = some queued.data.channelID := by
  have hdelta : ∀ x ∈ events, replacementKey x = some key →
      isUnpin x = false ∧ eventMessageChannel x = x.data.channelID := by
    intro x hx hx'
    rcases (hburst.chat x hx).cases with ⟨-, -, hnone⟩ | hdelta
    · simp [hnone] at hx'
    · exact hdelta
  obtain ⟨hunpin, hch⟩ := hdelta event hevent hkey
  obtain ⟨hunpin', hch'⟩ := hdelta queued hmem hqueued
  have hpos := hburst.pos event hevent
  have hpos' := hburst.pos queued hmem
  obtain ⟨value, value', hvalue, hvalue', hid⟩ :=
    Tracked.same_message (Or.inl (hch ▸ hpos)) hkey hqueued
  have hsame := hburst.home event hevent queued hmem value value' hvalue hvalue' hid.symm
  have hdata : event.data.channelID = queued.data.channelID := by
    rw [hvalue, hvalue']
    exact hsame
  refine ⟨hunpin', hunpin, ?_, ?_⟩
  · rw [room_delta (hch ▸ hpos), room_delta (hch' ▸ hpos'), hch, hch', hdata]
  · rw [room_delta (hch' ▸ hpos'), hch']

theorem mem_rooms (hx : x ∈ queue) (hroom : room x = some ch) :
    ch ∈ queue.filterMap room := mem_filterMap.mpr ⟨x, hx, hroom⟩

variable {priority priority' : List OutgoingEvent} {resync : Int → Bool}

theorem StandsFor.accepted (h : StandsFor queue sent) (hburst : Burst (sent ++ [event]))
    (hout : Outcome resync queue priority event queue' priority' true) :
    StandsFor queue' (sent ++ [event]) := by
  have hchat := hburst.chat event (by simp)
  have hsent : Burst sent := hburst.subset fun x hx => mem_append_left _ hx
  obtain ⟨hnormal, hsolid, -, -⟩ := hchat.plain
  cases hout with
  | media hmedia => simp [hnormal] at hmedia
  | dropped htransient => simp [hsolid] at htransient
  | @stale queued key _ hkey hqueued hmem _ =>
    have hsent' := (h.mem queued hmem).resolve_right (no_marker_of_key hqueued)
    obtain ⟨-, hunpin, hroom, hch⟩ :=
      hburst.same_key (by simp) (mem_append_left _ hsent') hkey hqueued
    exact h.fold hunpin (hroom.trans hch) (mem_rooms hmem hch)
  | @replaced pre post queued key _ hkey hqueued hqueue _ =>
    subst hqueue
    have hsent' := (h.mem queued (by simp)).resolve_right (no_marker_of_key hqueued)
    obtain ⟨hunpin', hunpin, hroom, hch⟩ :=
      hburst.same_key (by simp) (mem_append_left _ hsent') hkey hqueued
    exact h.replace hunpin' hunpin hroom hch hchat.not_marker
  | @absorbed marker _ hdelta hmem hmarker =>
    refine h.fold (hchat.not_unpin_of_delta hdelta) (room_delta hdelta) (mem_rooms hmem ?_)
    simp only [isSyncMarker, and_eq_true, decide_eq_true_eq] at hmarker
    simp [room, hmarker.1, hmarker.2]
  | compacted _ hdelta hsq hmem =>
    exact (h.squeezed hsent hsq).fold (hchat.not_unpin_of_delta hdelta) (room_delta hdelta)
      (mem_rooms hmem rfl)
  | appended _ _ hsq _ hnone =>
    refine (h.squeezed hsent hsq).append (fun ch hroom serverID hmem => ?_) hchat.not_marker
    rcases hburst.room_eq_some (Or.inl (by simp)) hroom with ⟨rfl, hdelta⟩ | ⟨_, hmarker⟩
    · simpa using hnone hdelta _ hmem
    · exact hchat.not_marker ⟨_, _, hmarker⟩

theorem burstSize_append_le (sent rest : List OutgoingEvent) :
    burstSize sent ≤ burstSize (sent ++ rest) := by
  refine Nat.add_le_add ?_ (Finset.card_le_card fun ch => ?_)
  · simp
  · simp only [mem_toFinset, filterMap_append, mem_append]
    exact Or.inl

theorem burstSize_append_singleton (hnew : isUnpin event = true ∧ room event = none ∨
    isUnpin event = false ∧ ∃ ch, room event = some ch ∧ ch ∉ sent.filterMap room) :
    burstSize (sent ++ [event]) = burstSize sent + 1 := by
  rcases hnew with ⟨hunpin, hroom⟩ | ⟨hunpin, ch, hroom, hfresh⟩
  · simp only [burstSize, countP_append, countP_singleton, hunpin, if_true,
      filterMap_append, filterMap_cons, hroom, filterMap_nil, append_nil]
    omega
  · have hset : ((sent ++ [event]).filterMap room).toFinset =
        insert ch (sent.filterMap room).toFinset := by
      ext c
      simp [hroom]
    rw [burstSize, hset, Finset.card_insert_of_notMem (by simpa using hfresh), burstSize]
    simp only [countP_append, countP_singleton, hunpin, false_eq_true, if_false]
    omega

theorem StandsFor.rejected (h : StandsFor queue sent) (hburst : Burst (sent ++ [event]))
    (hresync : ∀ x ∈ sent, resync x.data.channelID = true)
    (hout : Outcome resync queue priority event queue' priority' false) :
    outgoingBufferSize < burstSize (sent ++ [event]) := by
  have hchat := hburst.chat event (by simp)
  have hsent : Burst sent := hburst.subset fun x hx => mem_append_left _ hx
  cases hout with
  | mediaFull hmedia => simp [hchat.plain.1] at hmedia
  | full _ _ hsq hfull hexhausted hnone =>
    have hstands := h.squeezed hsent hsq
    have hfolded : ∀ x ∈ queue', eventMessageChannel x ≤ 0 := by
      intro x hx
      by_contra hpos
      rw [not_le] at hpos
      have hstuck := hexhausted x hx hpos
      rcases hstands.mem x hx with hx' | ⟨_, _, rfl⟩
      · rw [← channelID_of_eventMessageChannel hpos, hresync x hx'] at hstuck
        cases hstuck
      · simp at hpos
    have hsize := hstands.length_eq hsent hfolded
    have hgrow : burstSize (sent ++ [event]) = burstSize sent + 1 := by
      refine burstSize_append_singleton ?_
      rcases hchat.cases with ⟨hunpin, -, -⟩ | ⟨hunpin, hch⟩
      · exact Or.inl ⟨hunpin, (hburst.room_eq_none_iff (Or.inl (by simp))).mpr hunpin⟩
      · have hpos : 0 < eventMessageChannel event := hch ▸ hburst.pos event (by simp)
        refine Or.inr ⟨hunpin, _, room_delta hpos, fun hmem => ?_⟩
        obtain ⟨x, hx, hroom⟩ := mem_filterMap.mp ((hstands.rooms _).mpr hmem)
        rcases hsent.room_eq_some (hstands.mem x hx) hroom with ⟨hx', -⟩ | ⟨serverID, rfl⟩
        · have := hfolded x hx
          omega
        · simpa using hnone hpos _ hx
    omega

end Lane

/-! ## Whole bursts -/

/-- Every event is enqueued with success, one after the other and without a pop in between. -/
def Client.acceptsAll : Client → List OutgoingEvent → Bool
  | _, [] => true
  | c, event :: events => (c.enqueue event).2 && (c.enqueue event).1.acceptsAll events

/-- The client can resync the room of every event, and may read it. -/
def Client.Follows (c : Client) (events : List OutgoingEvent) : Prop :=
  ∀ x ∈ events, c.canResync x.data.channelID = true ∧
    canAccessChannel c.channelAccess x.data.channelID = true

theorem StandsFor.acceptsAll_iff {c : Client} {sent rest : List OutgoingEvent}
    (h : StandsFor c.outgoing sent) (hlength : c.outgoing.length ≤ outgoingBufferSize)
    (hburst : Burst (sent ++ rest)) (hopen : c.done = false) (hfollows : c.Follows (sent ++ rest)) :
    c.acceptsAll rest = true ↔ burstSize (sent ++ rest) ≤ outgoingBufferSize := by
  induction rest generalizing c sent with
  | nil =>
    rw [append_nil] at hburst ⊢
    have := h.burstSize_le hburst
    simp only [Client.acceptsAll, true_iff]
    omega
  | cons event rest ih =>
    have happend : sent ++ event :: rest = (sent ++ [event]) ++ rest := by simp
    rw [happend] at hburst hfollows ⊢
    have hsub : ∀ x ∈ sent ++ [event], x ∈ (sent ++ [event]) ++ rest :=
      fun x hx => mem_append_left _ hx
    have hburst' := hburst.subset hsub
    have hevent := hfollows event (hsub event (by simp))
    obtain ⟨hnormal, hsolid, hsnap, hstream⟩ := (hburst'.chat event (by simp)).plain
    have hfiltered := c.filterEvent_of_readable hsnap hstream (Or.inr hevent.2)
    cases henqueue : c.enqueue event with
    | mk c' accepted =>
    obtain ⟨hsame, ⟨hdone, -⟩ | ⟨-, -, hnone, -⟩ | ⟨-, filtered, hsome, hout⟩⟩ :=
      Client.enqueue_cases henqueue
    · simp [hopen] at hdone
    · simp [hfiltered] at hnone
    obtain rfl : event = filtered := by simpa [hfiltered] using hsome
    simp only [Client.acceptsAll, henqueue]
    cases accepted with
    | false =>
      have hlarge := h.rejected hburst'
        (fun x hx => (hfollows x (by simp [hx])).1) hout
      have := burstSize_append_le (sent ++ [event]) rest
      simp only [Bool.false_and, Bool.false_eq_true, false_iff]
      omega
    | true =>
      simp only [Bool.true_and]
      refine ih (h.accepted hburst' hout) (hout.outgoing_length_le hlength) hburst
        (hsame.done.trans hopen) fun x hx => ?_
      rw [hsame.canResync, hsame.channelAccess]
      exact hfollows x hx

theorem StandsFor.nil : StandsFor [] [] where
  mem := by simp
  unpins := rfl
  rooms _ := Iff.rfl
  single := by simp

/-- **When a chat burst disconnects a client.** An open client that can resync, with an empty normal
lane, accepts a burst of the publisher's events in rooms it follows if and only if the unpins of the
burst and the channels of its other events are together at most 128. -/
theorem chat_burst_accepted_iff (c : Client) (events : List OutgoingEvent) (hopen : c.done = false)
    (hempty : c.outgoing = []) (hburst : Burst events) (hfollows : c.Follows events) :
    c.acceptsAll events = true ↔
      events.countP isUnpin + (events.filterMap room).toFinset.card ≤ 128 := by
  have hstart : StandsFor c.outgoing [] := hempty ▸ StandsFor.nil
  exact hstart.acceptsAll_iff (by simp [hempty]) hburst hopen hfollows

/-- A client with message sync that is subscribed to channel 1 of server 1 only. -/
def syncClient : Client :=
  newClient.run [.enableMessageSync, .addSubscription 1 1]

def unpinEvent : OutgoingEvent :=
  roomEvent 0 .messageUnpinned (.messageUnpinned 1 7) ⟨nofun, nofun⟩

theorem unpins_burst (n : Nat) : Burst (List.replicate n unpinEvent) where
  chat x hx := ⟨.messageUnpinned 1 7, 0, by rw [eq_of_mem_replicate hx]; rfl⟩
  pos x hx := by rw [eq_of_mem_replicate hx]; decide
  home x hx _ _ _ _ hdata := by rw [eq_of_mem_replicate hx] at hdata; cases hdata

theorem syncClient_follows (n : Nat) : syncClient.Follows (List.replicate n unpinEvent) := by
  intro x hx
  rw [eq_of_mem_replicate hx]
  exact ⟨rfl, rfl⟩

/-- 128 unpins just fit. -/
theorem chat_burst_accepted_iff_unpins :
    syncClient.acceptsAll (List.replicate 128 unpinEvent) = true ↔
      (List.replicate 128 unpinEvent).countP isUnpin +
        ((List.replicate 128 unpinEvent).filterMap room).toFinset.card ≤ 128 :=
  chat_burst_accepted_iff syncClient _ rfl rfl (unpins_burst 128) (syncClient_follows 128)

theorem burstSize_unpins (n : Nat) : burstSize (List.replicate n unpinEvent) = n := by
  have hroom : room unpinEvent = none := rfl
  have hunpin : isUnpin unpinEvent = true := rfl
  simp [burstSize, countP_replicate, hroom, hunpin]

theorem unpins_accepted_iff (n : Nat) :
    syncClient.acceptsAll (List.replicate n unpinEvent) = true ↔ n ≤ outgoingBufferSize := by
  have hstart : StandsFor syncClient.outgoing [] := StandsFor.nil
  rw [hstart.acceptsAll_iff (Nat.zero_le _) (unpins_burst n) rfl (syncClient_follows n),
    nil_append, burstSize_unpins]

/-- **129 unpins in one channel disconnect the client**, although it can resync and follows a single
channel. -/
theorem unpin_burst_rejected :
    ∃ (c : Client) (events : List OutgoingEvent), c.done = false ∧ c.messageSync = true ∧
      c.outgoing = [] ∧ (∀ ch, (c.subscriptions ch).isSome = true → ch = 1) ∧ Burst events ∧
      c.Follows events ∧ c.acceptsAll events = false := by
  refine ⟨syncClient, List.replicate 129 unpinEvent, rfl, rfl, rfl, fun ch hch => ?_,
    unpins_burst 129, syncClient_follows 129, ?_⟩
  · by_contra hne
    simp [syncClient, Client.run, Client.apply, newClient, Function.update, hne] at hch
  · rw [← not_eq_true, unpins_accepted_iff]
    decide

end Voxhold.Realtime
