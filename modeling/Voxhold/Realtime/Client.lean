/-
# Voxhold.Realtime.Client — one websocket connection and its event filters

The part of `client.go` that the outgoing queue works on, and its two filters: `filterChannelEvent`
enforces the channel policy, `filterLegacyStreamEvent` keeps one primary broadcast per channel for
old clients. Filtering is idempotent and never turns one kind of event into another.
-/

import Mathlib.Data.Finset.Basic
import Voxhold.Realtime.Event

namespace Voxhold.Realtime

open EventData

variable {event : OutgoingEvent}

/-- `outgoingBufferSize`: the capacity of each lane. -/
def outgoingBufferSize : Nat := 128

/-- `Client`, without the identity fields. A Go map is a function to `Option`; `channelAccess` keeps
the difference between a `nil` policy (no policy installed, everything is readable) and an empty
one. `done` records that the `done` channel is closed, `outgoingReady` that its one-slot channel is
full. -/
structure Client where
  channelAccess : Option (Finset Int)
  outgoing : List OutgoingEvent
  priority : List OutgoingEvent
  outgoingReady : Bool
  priorityBurst : Nat
  queueCoalesced : Nat
  queueResyncs : Nat
  queueHighWater : Nat
  messageSync : Bool
  multipleStreams : Bool
  legacyStreams : Int → Option ConnectionID
  done : Bool
  queueFullLogged : Bool
  subscriptions : Int → Option Int

/-- `NewClient`: empty lanes, no policy, no subscriptions, no capability enabled yet. -/
def newClient : Client where
  channelAccess := none
  outgoing := []
  priority := []
  outgoingReady := false
  priorityBurst := 0
  queueCoalesced := 0
  queueResyncs := 0
  queueHighWater := 0
  messageSync := false
  multipleStreams := false
  legacyStreams := fun _ => none
  done := false
  queueFullLogged := false
  subscriptions := fun _ => none

/-! ## The channel policy -/

/-- `canAccessChannel` reads only the installed policy, so it is a function of the policy. -/
def canAccessChannel (channelAccess : Option (Finset Int)) (channelID : Int) : Bool :=
  match channelAccess with
  | none => true
  | some ids => decide (channelID ∈ ids)

namespace EventData

variable {data : EventData}

/-- The variable `id` of the switch in `filterChannelEvent`: the one channel a payload is about, or
zero. -/
def channelID : EventData → Int
  | .typing channelID _ | .channelActivity channelID _ | .e2eeRelay channelID
  | .notificationSettings channelID | .notification channelID _ => channelID
  | .reactions value => value.channelID
  | .attachmentsChanged channelID => channelID
  | .channel id => id
  | .channelDeleted channelID | .channelSubscription _ channelID => channelID
  | .channelRead value => value.channelID
  | .channelReadSnapshot channelID | .messageCreated channelID _ | .messageDeleted channelID _
  | .messagePinned channelID _ | .messageUnpinned channelID _ => channelID
  | .voiceParticipant value => value.channelID
  | .voiceLeft channelID _ => channelID
  | .voiceJoined participant => participant.channelID
  | .stream value => value.channelID
  | .streamStopped channelID _ => channelID
  | .streamWatching value => value.channelID
  | .recording channelID => channelID
  | _ => 0

/-- The three snapshot payloads that list entries of several channels. -/
def isChannelSnapshot : EventData → Bool
  | .voiceSnapshot _ | .streamSnapshot _ | .readSnapshot _ => true
  | _ => false

/-- The rewriting of a payload by `filterChannelEvent`: a snapshot loses the entries of channels
outside the policy, every other payload is left alone. -/
def restrict (channelAccess : Option (Finset Int)) : EventData → EventData
  | .voiceSnapshot participants =>
    .voiceSnapshot (participants.filter fun p => canAccessChannel channelAccess p.channelID)
  | .streamSnapshot streams =>
    .streamSnapshot (streams.filter fun s => canAccessChannel channelAccess s.channelID)
  | .readSnapshot reads =>
    .readSnapshot (reads.filter fun r => canAccessChannel channelAccess r.channelID)
  | data => data

/-- The channels whose data a payload shows to its reader. -/
def discloses : EventData → List Int
  | .voiceSnapshot participants => participants.map (·.channelID)
  | .streamSnapshot streams => streams.map (·.channelID)
  | .readSnapshot reads => reads.map (·.channelID)
  | data => if data.channelID = 0 then [] else [data.channelID]

variable {channelAccess : Option (Finset Int)}

theorem restrict_of_not_snapshot (h : data.isChannelSnapshot = false) :
    data.restrict channelAccess = data := by
  cases data <;> first | rfl | simp [isChannelSnapshot] at h

@[simp] theorem isChannelSnapshot_restrict (data : EventData) :
    (data.restrict channelAccess).isChannelSnapshot = data.isChannelSnapshot := by
  cases data <;> rfl

@[simp] theorem channelID_restrict (data : EventData) :
    (data.restrict channelAccess).channelID = data.channelID := by
  cases data <;> rfl

@[simp] theorem restrict_restrict (data : EventData) :
    (data.restrict channelAccess).restrict channelAccess = data.restrict channelAccess := by
  cases data <;> simp [restrict]

theorem wellTyped_restrict {type : EventType} (h : WellTyped type data) :
    WellTyped type (data.restrict channelAccess) := by
  cases data <;> exact h

theorem discloses_of_restrict_eq (hfix : data.restrict channelAccess = data)
    (hid : data.channelID = 0 ∨ canAccessChannel channelAccess data.channelID = true) :
    ∀ ch ∈ data.discloses, canAccessChannel channelAccess ch = true := by
  intro ch hch
  cases data with
  | voiceSnapshot participants =>
    obtain ⟨p, hp, rfl⟩ := List.mem_map.mp hch
    exact List.filter_eq_self.mp (voiceSnapshot.inj hfix) p hp
  | streamSnapshot streams =>
    obtain ⟨s, hs, rfl⟩ := List.mem_map.mp hch
    exact List.filter_eq_self.mp (streamSnapshot.inj hfix) s hs
  | readSnapshot reads =>
    obtain ⟨r, hr, rfl⟩ := List.mem_map.mp hch
    exact List.filter_eq_self.mp (readSnapshot.inj hfix) r hr
  | _ =>
    simp only [discloses, List.mem_ite_nil_left, List.mem_singleton] at hch
    obtain ⟨hne, rfl⟩ := hch
    exact hid.resolve_left hne

end EventData

/-! ## `filterChannelEvent` -/

/-- The event as the policy leaves it. A snapshot also gives up its shared encoding, which still
lists the hidden entries. -/
def OutgoingEvent.restrict (channelAccess : Option (Finset Int)) (event : OutgoingEvent) :
    OutgoingEvent :=
  { event with
    encoding := if event.data.isChannelSnapshot then none else event.encoding
    data := event.data.restrict channelAccess
    wellTyped := EventData.wellTyped_restrict event.wellTyped }

/-- `filterChannelEvent`: the filtered event, or `none` when the event is not allowed. -/
def filterChannelEvent (channelAccess : Option (Finset Int)) (event : OutgoingEvent) :
    Option OutgoingEvent :=
  if event.data.channelID = 0 ∨ canAccessChannel channelAccess event.data.channelID = true then
    some (event.restrict channelAccess)
  else
    none

/-- The event is a fixed point of the filter: it is allowed, and nothing in it has to be hidden. -/
def Readable (channelAccess : Option (Finset Int)) (event : OutgoingEvent) : Prop :=
  filterChannelEvent channelAccess event = some event

section Filter

variable {channelAccess : Option (Finset Int)} {event filtered : OutgoingEvent}

theorem filterChannelEvent_eq_some : filterChannelEvent channelAccess event = some filtered ↔
      (event.data.channelID = 0 ∨ canAccessChannel channelAccess event.data.channelID = true) ∧
        event.restrict channelAccess = filtered := by
  simp only [filterChannelEvent, Option.ite_none_right_eq_some, Option.some.injEq]

theorem OutgoingEvent.restrict_eq_self (h : event.data.isChannelSnapshot = false) :
    event.restrict channelAccess = event := by
  cases event
  simp_all [OutgoingEvent.restrict, restrict_of_not_snapshot]

theorem OutgoingEvent.restrict_restrict :
    (event.restrict channelAccess).restrict channelAccess = event.restrict channelAccess := by
  cases h : event.data.isChannelSnapshot <;> simp [OutgoingEvent.restrict, h]

theorem readable_of_filterChannelEvent
    (h : filterChannelEvent channelAccess event = some filtered) :
    Readable channelAccess filtered := by
  obtain ⟨hid, rfl⟩ := filterChannelEvent_eq_some.mp h
  refine filterChannelEvent_eq_some.mpr ⟨?_, OutgoingEvent.restrict_restrict⟩
  simpa [OutgoingEvent.restrict] using hid

theorem readable_iff : Readable channelAccess event ↔
      (event.data.channelID = 0 ∨ canAccessChannel channelAccess event.data.channelID = true) ∧
        (event.data.isChannelSnapshot = true → event.encoding = none) ∧
        event.data.restrict channelAccess = event.data := by
  rw [Readable, filterChannelEvent_eq_some]
  refine and_congr_right fun _ => ?_
  obtain ⟨encoding, requestID, type, data, wellTyped⟩ := event
  simp only [OutgoingEvent.restrict, OutgoingEvent.mk.injEq, true_and, and_congr_left_iff]
  intro _
  cases hsnap : data.isChannelSnapshot with
  | true => simp only [if_true, forall_const]; exact eq_comm
  | false => simp only [Bool.false_eq_true, if_false, false_implies]

theorem Readable.discloses (h : Readable channelAccess event) :
    ∀ ch ∈ event.data.discloses, canAccessChannel channelAccess ch = true := by
  obtain ⟨hid, -, hfix⟩ := readable_iff.mp h
  exact discloses_of_restrict_eq hfix hid

end Filter

/-! ## `filterLegacyStreamEvent` -/

/-- The loop over a stream snapshot: the first broadcast of each channel becomes its primary, the
others are left out. -/
def primaryStreams : List StreamData → (Int → Option ConnectionID) →
    (Int → Option ConnectionID) × List StreamData
  | [], primary => (primary, [])
  | value :: rest, primary =>
    match primary value.channelID with
    | some _ => primaryStreams rest primary
    | none =>
      let (primary, streams) := primaryStreams rest
        (Function.update primary value.channelID (some value.publisherConnectionID))
      (primary, value :: streams)

theorem primaryStreams_sublist (streams : List StreamData) (primary : Int → Option ConnectionID) :
    (primaryStreams streams primary).2.Sublist streams := by
  induction streams generalizing primary with
  | nil => exact List.Sublist.refl _
  | cons value rest ih =>
    unfold primaryStreams
    split
    · exact (ih _).cons _
    · exact (ih _).cons_cons _

/-- A stream snapshot with other streams in it and no shared encoding. -/
def OutgoingEvent.withStreams (event : OutgoingEvent) (streams : List StreamData)
    (h : event.type ≠ .channelSyncRequired) : OutgoingEvent :=
  { event with
    encoding := none
    data := .streamSnapshot streams
    wellTyped := ⟨fun hreactions => Bool.noConfusion hreactions, fun htype => absurd htype h⟩ }

theorem EventData.WellTyped.type_ne_sync {type : EventType} {data : EventData}
    (h : WellTyped type data) (hdata : data.subscriptionChannel = none) :
    type ≠ .channelSyncRequired := by
  intro htype
  simpa [hdata] using h.2 htype

/-- `filterLegacyStreamEvent`: the event as a client with one broadcast per channel gets it, `none`
when it concerns another publisher than the channel's primary. -/
def filterLegacyStreamEvent (c : Client) (event : OutgoingEvent) : Client × Option OutgoingEvent :=
  if c.multipleStreams then
    (c, some event)
  else
    match hdata : event.data with
    | .streamSnapshot streams =>
      let (primary, streams) := primaryStreams streams fun _ => none
      ({ c with legacyStreams := primary },
        some (event.withStreams streams (event.wellTyped.type_ne_sync (by rw [hdata]; rfl))))
    | .stream value =>
      let known := c.legacyStreams value.channelID
      if known.any (· ≠ value.publisherConnectionID) && event.requestID = "" then
        (c, none)
      else
        ({ c with
            legacyStreams := Function.update c.legacyStreams value.channelID
              (some value.publisherConnectionID) }, some event)
    | .streamWatching value =>
      ({ c with
          legacyStreams := Function.update c.legacyStreams value.channelID
            (some value.publisherConnectionID) }, some event)
    | .streamStopped channelID publisherConnectionID =>
      if event.type ≠ .stream .stopped then
        (c, some event)
      else if (c.legacyStreams channelID).any
          fun id => publisherConnectionID ≠ 0 && publisherConnectionID ≠ id then
        (c, none)
      else
        ({ c with legacyStreams := Function.update c.legacyStreams channelID none }, some event)
    | _ => (c, some event)

/-- The payloads the legacy filter looks at. -/
def EventData.isStream : EventData → Bool
  | .streamSnapshot _ | .stream _ | .streamWatching _ | .streamStopped _ _ => true
  | _ => false

theorem filterLegacyStreamEvent_of_not_stream (c : Client)
    (h : event.data.isStream = false) : filterLegacyStreamEvent c event = (c, some event) := by
  unfold filterLegacyStreamEvent
  split
  · rfl
  · split
    · next hdata => simp [hdata, isStream] at h
    · next hdata => simp [hdata, isStream] at h
    · next hdata => simp [hdata, isStream] at h
    · next hdata => simp [hdata, isStream] at h
    · rfl

theorem filterLegacyStreamEvent_cases {c c' : Client}
    {result : Option OutgoingEvent} (h : filterLegacyStreamEvent c event = (c', result)) :
    (∃ legacy, c' = { c with legacyStreams := legacy }) ∧
      (result = none ∨ result = some event ∨
        ∃ streams kept, ∃ hsync : event.type ≠ .channelSyncRequired,
          event.data = .streamSnapshot streams ∧ kept.Sublist streams ∧
            result = some (event.withStreams kept hsync)) := by
  unfold filterLegacyStreamEvent at h
  split at h
  · cases h
    exact ⟨⟨c.legacyStreams, rfl⟩, Or.inr (Or.inl rfl)⟩
  · split at h
    · next streams hdata =>
      cases h
      exact ⟨⟨_, rfl⟩, Or.inr (Or.inr ⟨streams, _, _, hdata, primaryStreams_sublist _ _, rfl⟩)⟩
    · simp only at h
      split at h <;> cases h
      · exact ⟨⟨c.legacyStreams, rfl⟩, Or.inl rfl⟩
      · exact ⟨⟨_, rfl⟩, Or.inr (Or.inl rfl)⟩
    · cases h
      exact ⟨⟨_, rfl⟩, Or.inr (Or.inl rfl)⟩
    · split at h
      · cases h
        exact ⟨⟨c.legacyStreams, rfl⟩, Or.inr (Or.inl rfl)⟩
      · split at h <;> cases h
        · exact ⟨⟨c.legacyStreams, rfl⟩, Or.inl rfl⟩
        · exact ⟨⟨_, rfl⟩, Or.inr (Or.inl rfl)⟩
    · cases h
      exact ⟨⟨c.legacyStreams, rfl⟩, Or.inr (Or.inl rfl)⟩

theorem Readable.withStreams {channelAccess : Option (Finset Int)}
    {streams kept : List StreamData} (h : Readable channelAccess event)
    (hdata : event.data = .streamSnapshot streams) (hkept : kept.Sublist streams)
    (hsync : event.type ≠ .channelSyncRequired) :
    Readable channelAccess (event.withStreams kept hsync) := by
  obtain ⟨-, -, hfix⟩ := readable_iff.mp h
  rw [hdata] at hfix
  have hall := List.filter_eq_self.mp (streamSnapshot.inj hfix)
  refine readable_iff.mpr ⟨Or.inl rfl, fun _ => rfl, ?_⟩
  refine congrArg streamSnapshot (List.filter_eq_self.mpr fun s hs => ?_)
  exact hall s (hkept.subset hs)

end Voxhold.Realtime
