/-
# Voxhold.Realtime.Outgoing — the bounded two-lane outgoing queue

`outgoing.go` and `Client.enqueue`. A connection owns two slices of at most 128 events: the media
lane (`voice.*`, `stream.*`) is a plain bounded FIFO; the normal lane may also replace, evict and
compact.
-/

import Mathlib.Data.List.Basic
import Voxhold.Realtime.Client

namespace Voxhold.Realtime

open List

variable {event : OutgoingEvent} {queue : List OutgoingEvent}

/-! ## Classification of events -/

/-- The strings of `replacementKey`, by their format. -/
inductive ReplacementKey where
  | notification (channelID : Int)
  | notificationSettings (channelID : Int)
  | reactions (messageID : Int)
  | presence (serverID userID : Int)
  | read (channelID userID : Int)
  | activity (channelID : Int)
  | typing (channelID userID : Int)
  deriving DecidableEq, Repr

/-- `replacementKey`: `none` is the empty string. -/
def replacementKey (event : OutgoingEvent) : Option ReplacementKey :=
  if event.requestID ≠ "" then
    none
  else
    match event.type, event.data.eventChannelID with
    | .notificationMessage, some channelID => some (.notification channelID)
    | .notificationSettingsUpdated, some channelID => some (.notificationSettings channelID)
    | type, _ =>
      match event.data with
      | .reactions value => some (.reactions value.messageID)
      | .presenceUpdated serverID userID _ =>
        if type = .presenceUpdated then some (.presence serverID userID) else none
      | .channelRead value =>
        if type = .channelRead then some (.read value.channelID value.userID) else none
      | .channelActivity channelID _ => some (.activity channelID)
      | .typing channelID userID =>
        if type = .typing then some (.typing channelID userID) else none
      | _ => none

/-- `eventMessageChannel`: the channel whose history an unsolicited event changes, or zero. -/
def eventMessageChannel (event : OutgoingEvent) : Int :=
  if event.requestID ≠ "" then
    0
  else
    match event.type, event.data with
    | .messageReactionsChanged, .reactions value => value.channelID
    | .messageCreated, .messageCreated channelID _ | .messageUpdated, .messageCreated channelID _
    | .messageDeleted, .messageDeleted channelID _ | .messageUnpinned, .messageDeleted channelID _
    | .messagePinned, .messagePinned channelID _ => channelID
    | _, _ => 0

/-- `queued` is the `channel.sync_required` marker of a channel. -/
def isSyncMarker (channelID : Int) (queued : OutgoingEvent) : Bool :=
  queued.type = .channelSyncRequired && queued.data.subscriptionChannel = some channelID

/-- The marker that `compactChannel` inserts. -/
def syncMarker (serverID channelID : Int) : OutgoingEvent where
  encoding := none
  requestID := ""
  type := .channelSyncRequired
  data := .channelSubscription serverID channelID
  wellTyped := ⟨fun h => Bool.noConfusion h, fun _ => rfl⟩

/-! ## The queue operations -/

/-- `queued` has the replacement key of `event` but is the newer of the two: a higher reaction
revision, or a higher read position. -/
def isStale (queued event : OutgoingEvent) : Bool :=
  match queued.data, event.data with
  | .reactions previous, .reactions next => next.revision < previous.revision
  | .channelRead previous, .channelRead next => next.lastReadMessageID < previous.lastReadMessageID
  | _, _ => false

/-- The scan for a queued event with the same key. The first hit decides: it is overwritten in
place, or kept if the new event is stale. -/
def replaceQueued (event : OutgoingEvent) (key : ReplacementKey) :
    List OutgoingEvent → Option (List OutgoingEvent)
  | [] => none
  | queued :: rest =>
    if replacementKey queued = some key then
      some ((if isStale queued event then queued else event) :: rest)
    else
      (replaceQueued event key rest).map (queued :: ·)

/-- The loop of `compactChannel`: every delta of the channel is dropped, the first one leaves
`marker` in its place. The flag is the source's `inserted`. -/
def compactQueue (marker : OutgoingEvent) (channelID : Int) :
    List OutgoingEvent → Bool → List OutgoingEvent × Bool
  | [], inserted => ([], inserted)
  | queued :: rest, inserted =>
    if eventMessageChannel queued = channelID then
      if inserted then
        compactQueue marker channelID rest true
      else
        let (kept, inserted) := compactQueue marker channelID rest true
        (marker :: kept, inserted)
    else
      let (kept, inserted) := compactQueue marker channelID rest inserted
      (queued :: kept, inserted)

namespace Client

/-- `compactChannel`. Only a client that can resynchronise, for a channel it is subscribed to. -/
def compactChannel (c : Client) (channelID : Int) : Client × Bool :=
  let serverID := (c.subscriptions channelID).getD 0
  if c.messageSync = false ∨ serverID ≤ 0 then
    (c, false)
  else
    let (kept, inserted) :=
      compactQueue (syncMarker serverID channelID) channelID c.outgoing false
    ({ c with
        outgoing := kept
        queueResyncs := if inserted then c.queueResyncs + 1 else c.queueResyncs }, inserted)

/-- The compaction loop of `enqueueLocked` over the slots `index, index + 1, …` of a full lane. The
source ranges over the backing array that `compactChannel` rewrites in place; it goes on only while
the length is still 128, so the slot it reads is a slot of the current lane. The flag says that the
event's own channel was compacted, which absorbs the event. -/
def compactOthers (channelID : Int) : (index remaining : Nat) → Client → Client × Bool
  | _, 0, c => (c, false)
  | index, remaining + 1, c =>
    match c.outgoing[index]? with
    | none => (c, false)
    | some queued =>
      let candidate := eventMessageChannel queued
      if 0 < candidate then
        let (c', inserted) := c.compactChannel candidate
        if inserted = false then
          compactOthers channelID (index + 1) remaining c'
        else if candidate = channelID then
          (c', true)
        else if c'.outgoing.length < outgoingBufferSize then
          (c', false)
        else
          compactOthers channelID (index + 1) remaining c'
      else
        compactOthers channelID (index + 1) remaining c

/-- The tail of `enqueueLocked`: find a slot in the normal lane and append. -/
def appendOutgoing (c : Client) (event : OutgoingEvent) : Client × Bool :=
  if c.outgoing.length = outgoingBufferSize ∧ event.type.isTransient = true then
    (c, true)
  else
    let c := if c.outgoing.length = outgoingBufferSize then
        { c with outgoing := c.outgoing.eraseP (·.type.isTransient) }
      else c
    let (c, absorbed) := if c.outgoing.length = outgoingBufferSize then
        compactOthers (eventMessageChannel event) 0 outgoingBufferSize c
      else (c, false)
    if absorbed then
      (c, true)
    else if c.outgoing.length = outgoingBufferSize then
      (c, false)
    else
      ({ c with outgoing := c.outgoing ++ [event] }, true)

def enqueueLocked (c : Client) (event : OutgoingEvent) : Client × Bool :=
  if event.type.isMedia then
    if c.priority.length = outgoingBufferSize then
      (c, false)
    else
      ({ c with priority := c.priority ++ [event] }, true)
  else
    match (replacementKey event).bind fun key => replaceQueued event key c.outgoing with
    | some outgoing =>
      ({ c with outgoing := outgoing, queueCoalesced := c.queueCoalesced + 1 }, true)
    | none =>
      let channelID := eventMessageChannel event
      if 0 < channelID ∧ c.outgoing.any (isSyncMarker channelID) = true then
        ({ c with queueCoalesced := c.queueCoalesced + 1 }, true)
      else
        c.appendOutgoing event

/-- The two filters at the head of `enqueue`: the event as this client may get it, or `none`. -/
def filterEvent (c : Client) (event : OutgoingEvent) : Client × Option OutgoingEvent :=
  match filterChannelEvent c.channelAccess event with
  | none => (c, none)
  | some filtered => filterLegacyStreamEvent c filtered

/-- `enqueue`. An event that a filter rejects counts as sent. -/
def enqueue (c : Client) (event : OutgoingEvent) : Client × Bool :=
  if c.done then
    (c, false)
  else
    match c.filterEvent event with
    | (c, none) => (c, true)
    | (c, some event) =>
      match c.enqueueLocked event with
      | (c, true) =>
        ({ c with
            queueHighWater := max c.queueHighWater (c.outgoing.length + c.priority.length)
            outgoingReady := true }, true)
      | (c, false) => ({ c with queueFullLogged := true }, false)

/-- `PopOutgoing`. The media lane goes first, up to eight times in a row while the other lane waits.
-/
def popOutgoing (c : Client) : Client × Option OutgoingEvent :=
  if 0 < c.priority.length ∧ (c.priorityBurst < 8 ∨ c.outgoing.length = 0) then
    match c.priority with
    | [] => ({ c with priorityBurst := c.priorityBurst + 1 }, none)
    | event :: rest =>
      ({ c with
          priority := rest
          priorityBurst := c.priorityBurst + 1
          outgoingReady := c.outgoingReady || 0 < c.outgoing.length + rest.length }, some event)
  else
    match c.outgoing with
    | [] => ({ c with priorityBurst := 0 }, none)
    | event :: rest =>
      ({ c with
          outgoing := rest
          priorityBurst := 0
          outgoingReady := c.outgoingReady || 0 < rest.length + c.priority.length }, some event)

/-- `replaceChannelAccess`: install the policy and filter both lanes in place. -/
def replaceChannelAccess (c : Client) (ids : Option (Finset Int)) : Client :=
  { c with
    channelAccess := ids
    outgoing := c.outgoing.filterMap (filterChannelEvent ids)
    priority := c.priority.filterMap (filterChannelEvent ids) }

/-- The guards of `compactChannel`: the client can catch up on the channel's history by itself. -/
def canResync (c : Client) (channelID : Int) : Bool :=
  c.messageSync && 0 < (c.subscriptions channelID).getD 0

end Client

/-! ## What replacement and compaction do to a lane -/

theorem replaceQueued_eq_some {key : ReplacementKey}
    {queue' : List OutgoingEvent} (h : replaceQueued event key queue = some queue') :
    ∃ pre queued post, queue = pre ++ queued :: post ∧ replacementKey queued = some key ∧
      (∀ x ∈ pre, replacementKey x ≠ some key) ∧
      queue' = pre ++ (if isStale queued event then queued else event) :: post := by
  induction queue generalizing queue' with
  | nil => cases h
  | cons queued rest ih =>
    unfold replaceQueued at h
    split at h
    · next hkey =>
      cases h
      exact ⟨[], queued, rest, rfl, hkey, by simp, rfl⟩
    · next hkey =>
      obtain ⟨rest', hrest, rfl⟩ := Option.map_eq_some_iff.mp h
      obtain ⟨pre, hit, post, rfl, hhit, hpre, rfl⟩ := ih hrest
      exact ⟨queued :: pre, hit, post, rfl, hhit, forall_mem_cons.mpr ⟨hkey, hpre⟩, rfl⟩

theorem compactQueue_inserted (marker : OutgoingEvent) (channelID : Int)
    (queue : List OutgoingEvent) : compactQueue marker channelID queue true =
      (queue.filter (eventMessageChannel · ≠ channelID), true) := by
  induction queue with
  | nil => rfl
  | cons queued rest ih =>
    by_cases h : eventMessageChannel queued = channelID <;> simp [compactQueue, h, ih]

theorem compactQueue_cases (marker : OutgoingEvent) (channelID : Int) (queue : List OutgoingEvent) :
    (compactQueue marker channelID queue false = (queue, false) ∧
        ∀ x ∈ queue, eventMessageChannel x ≠ channelID) ∨
      ∃ pre delta post, queue = pre ++ delta :: post ∧ eventMessageChannel delta = channelID ∧
        (∀ x ∈ pre, eventMessageChannel x ≠ channelID) ∧
        compactQueue marker channelID queue false =
          (pre ++ marker :: post.filter (eventMessageChannel · ≠ channelID), true) := by
  induction queue with
  | nil => exact Or.inl ⟨rfl, by simp⟩
  | cons queued rest ih =>
    by_cases h : eventMessageChannel queued = channelID
    · refine Or.inr ⟨[], queued, rest, rfl, h, by simp, ?_⟩
      simp [compactQueue, h, compactQueue_inserted]
    · rcases ih with ⟨hsame, hnone⟩ | ⟨pre, delta, post, rfl, hdelta, hpre, hcompact⟩
      · refine Or.inl ⟨by simp [compactQueue, h, hsame], ?_⟩
        simpa [h] using hnone
      · refine Or.inr ⟨queued :: pre, delta, post, rfl, hdelta, ?_, ?_⟩
        · simpa [h] using hpre
        · simp [compactQueue, h, hcompact]

/-- The lane after any number of evictions and compactions on behalf of other events. -/
inductive Squeezed (queue : List OutgoingEvent) : List OutgoingEvent → Prop where
  | refl : Squeezed queue queue
  | evict {pre post : List OutgoingEvent} {queued : OutgoingEvent} :
      Squeezed queue (pre ++ queued :: post) → queued.type.isTransient = true →
      Squeezed queue (pre ++ post)
  | compact {pre post : List OutgoingEvent} {delta : OutgoingEvent} (serverID : Int) :
      Squeezed queue (pre ++ delta :: post) → 0 < eventMessageChannel delta →
      (∀ x ∈ pre, eventMessageChannel x ≠ eventMessageChannel delta) →
      Squeezed queue (pre ++ syncMarker serverID (eventMessageChannel delta) ::
        post.filter (eventMessageChannel · ≠ eventMessageChannel delta))

theorem Squeezed.trans {a b c : List OutgoingEvent} (hab : Squeezed a b) (hbc : Squeezed b c) :
    Squeezed a c := by
  induction hbc with
  | refl => exact hab
  | evict _ htransient ih => exact ih.evict htransient
  | compact serverID _ hpos hpre ih => exact ih.compact serverID hpos hpre

theorem Squeezed.length_le {queue' : List OutgoingEvent} (h : Squeezed queue queue') :
    queue'.length ≤ queue.length := by
  induction h with
  | refl => exact le_rfl
  | evict _ _ ih =>
    simp only [length_append, length_cons] at ih ⊢
    omega
  | @compact pre post delta _ _ _ _ ih =>
    have hfilter := length_filter_le (eventMessageChannel · ≠ eventMessageChannel delta) post
    simp only [length_append, length_cons] at ih ⊢
    omega

theorem Squeezed.eraseP_transient (queue : List OutgoingEvent) :
    Squeezed queue (queue.eraseP (·.type.isTransient)) := by
  rcases exists_or_eq_self_of_eraseP (·.type.isTransient) queue with
    hsame | ⟨queued, pre, post, -, htransient, hqueue, herase⟩
  · rw [hsame]
    exact Squeezed.refl
  · rw [herase]
    exact (hqueue ▸ Squeezed.refl : Squeezed queue (pre ++ queued :: post)).evict htransient

@[simp] theorem eventMessageChannel_syncMarker (serverID channelID : Int) :
    eventMessageChannel (syncMarker serverID channelID) = 0 := rfl

@[simp] theorem isSyncMarker_syncMarker (serverID channelID ch : Int) :
    isSyncMarker ch (syncMarker serverID channelID) = decide (channelID = ch) := by
  simp [isSyncMarker, syncMarker, EventData.subscriptionChannel]

namespace Client

variable {c : Client} {channelID : Int} {delta : OutgoingEvent} {pre post : List OutgoingEvent}

theorem compactChannel_cases {c' : Client} {inserted : Bool}
    (h : c.compactChannel channelID = (c', inserted)) : (inserted = false ∧ c' = c ∧
        (c.canResync channelID = false ∨ ∀ x ∈ c.outgoing, eventMessageChannel x ≠ channelID)) ∨
      (inserted = true ∧ c.canResync channelID = true ∧ ∃ serverID pre delta post,
        c.outgoing = pre ++ delta :: post ∧ eventMessageChannel delta = channelID ∧
        (∀ x ∈ pre, eventMessageChannel x ≠ channelID) ∧
        c' = { c with
          outgoing := pre ++ syncMarker serverID channelID ::
            post.filter (eventMessageChannel · ≠ channelID)
          queueResyncs := c.queueResyncs + 1 }) := by
  unfold compactChannel at h
  simp only at h
  split at h
  · next hguard =>
    cases h
    refine Or.inl ⟨rfl, rfl, Or.inl ?_⟩
    rcases hguard with hsync | hserver
    · simp [canResync, hsync]
    · simp [canResync, hserver]
  · next hguard =>
    have hcan : c.canResync channelID = true := by
      simp only [not_or, Bool.not_eq_false, not_le] at hguard
      simp [canResync, hguard.1, hguard.2]
    rcases compactQueue_cases (syncMarker ((c.subscriptions channelID).getD 0) channelID) channelID
      c.outgoing with ⟨hsame, hnone⟩ | ⟨pre, delta, post, hqueue, hdelta, hpre, hcompact⟩
    · rw [hsame] at h
      cases h
      exact Or.inl ⟨rfl, rfl, Or.inr hnone⟩
    · rw [hcompact] at h
      cases h
      exact Or.inr ⟨rfl, hcan, _, pre, delta, post, hqueue, hdelta, hpre, rfl⟩

/-- The slots before `index` hold no delta that could still be compacted. -/
def ScannedTo (c : Client) (index : Nat) : Prop :=
  ∀ i < index, ∀ x, c.outgoing[i]? = some x → 0 < eventMessageChannel x →
    c.canResync (eventMessageChannel x) = false

theorem ScannedTo.succ {index : Nat} (h : c.ScannedTo index)
    (hslot : ∀ x, c.outgoing[index]? = some x → 0 < eventMessageChannel x →
      c.canResync (eventMessageChannel x) = false) : c.ScannedTo (index + 1) := by
  intro i hi x hx hpos
  rcases Nat.lt_succ_iff_lt_or_eq.mp hi with hlt | rfl
  · exact h i hlt x hx hpos
  · exact hslot x hx hpos

theorem ScannedTo.compact {index : Nat} {queued : OutgoingEvent} (h : c.ScannedTo index)
    (serverID : Int) (resyncs : Nat) (hslot : c.outgoing[index]? = some queued)
    (hqueued : eventMessageChannel queued = channelID) (hqueue : c.outgoing = pre ++ delta :: post)
    (hpre : ∀ x ∈ pre, eventMessageChannel x ≠ channelID)
    (hkeep : post.filter (eventMessageChannel · ≠ channelID) = post) : ScannedTo { c with
      outgoing := pre ++ syncMarker serverID channelID :: post
      queueResyncs := resyncs } (index + 1) := by
  intro i hi x hx hpos
  rcases lt_trichotomy i pre.length with hlt | rfl | hgt
  · have hx' : pre[i]? = some x := by simpa [List.getElem?_append_left hlt] using hx
    have hold : c.outgoing[i]? = some x := by rw [hqueue, List.getElem?_append_left hlt, hx']
    rcases Nat.lt_succ_iff_lt_or_eq.mp hi with hlt' | rfl
    · exact h i hlt' x hold hpos
    · obtain rfl : queued = x := Option.some.inj (hslot.symm.trans hold)
      exact absurd hqueued (hpre queued (mem_of_getElem? hx'))
  · obtain rfl : syncMarker serverID channelID = x := by simpa using hx
    simp at hpos
  · obtain ⟨j, rfl⟩ : ∃ j, i = pre.length + (j + 1) := ⟨i - pre.length - 1, by omega⟩
    have hx' : post[j]? = some x := by
      simpa [List.getElem?_append_right (Nat.le_add_right _ _)] using hx
    have hold : c.outgoing[pre.length + (j + 1)]? = some x := by
      rw [hqueue, List.getElem?_append_right (Nat.le_add_right _ _)]
      simpa using hx'
    rcases Nat.lt_succ_iff_lt_or_eq.mp hi with hlt' | rfl
    · exact h _ hlt' x hold hpos
    · obtain rfl : queued = x := Option.some.inj (hslot.symm.trans hold)
      have := filter_eq_self.mp hkeep queued (mem_of_getElem? hx')
      simp [hqueued] at this

theorem ScannedTo.all (h : c.ScannedTo c.outgoing.length) {x : OutgoingEvent}
    (hx : x ∈ c.outgoing) (hpos : 0 < eventMessageChannel x) :
    c.canResync (eventMessageChannel x) = false := by
  obtain ⟨i, hi, rfl⟩ := mem_iff_getElem.mp hx
  exact h i hi _ (List.getElem?_eq_getElem hi) hpos

/-- What the compaction loop achieves. `absorbed` reports that the event's own channel was
compacted; otherwise no marker of that channel appeared, and a lane that is still full has nothing
left to compact. -/
structure Compacted (c : Client) (channelID : Int) (c' : Client) (absorbed : Bool) : Prop where
  frame : ∃ resyncs, c' = { c with outgoing := c'.outgoing, queueResyncs := resyncs }
  squeezed : Squeezed c.outgoing c'.outgoing
  marker : absorbed = true →
    0 < channelID ∧ ∃ serverID, syncMarker serverID channelID ∈ c'.outgoing
  noMarker : absorbed = false →
    ∀ x ∈ c'.outgoing, isSyncMarker channelID x = true → x ∈ c.outgoing
  exhausted : absorbed = false → c'.outgoing.length = outgoingBufferSize →
    ∀ x ∈ c'.outgoing, 0 < eventMessageChannel x → c.canResync (eventMessageChannel x) = false

theorem mem_of_isSyncMarker {serverID other : Int} {x : OutgoingEvent} (hne : other ≠ channelID)
    (hx : x ∈ pre ++ syncMarker serverID other :: post.filter (eventMessageChannel · ≠ other))
    (hmarker : isSyncMarker channelID x = true) : x ∈ pre ++ delta :: post := by
  rcases mem_append.mp hx with hx | hx
  · exact mem_append_left _ hx
  · rcases mem_cons.mp hx with rfl | hx
    · exact absurd (by simpa using hmarker) hne
    · exact mem_append_right _ (mem_cons_of_mem _ (mem_filter.mp hx).1)

theorem filter_eq_of_length_le {serverID : Int} {size : Nat}
    (hlen : (pre ++ delta :: post).length = size)
    (hstill : size ≤ (pre ++ syncMarker serverID channelID ::
      post.filter (eventMessageChannel · ≠ channelID)).length) :
    post.filter (eventMessageChannel · ≠ channelID) = post := by
  refine List.Sublist.eq_of_length_le filter_sublist ?_
  simp only [length_append, length_cons] at hlen hstill
  omega

theorem compactOthers_compacted : ∀ {remaining index : Nat} {c c' : Client} {absorbed : Bool},
      c.outgoing.length = outgoingBufferSize → index + remaining = outgoingBufferSize →
      c.ScannedTo index → compactOthers channelID index remaining c = (c', absorbed) →
      Compacted c channelID c' absorbed := by
  intro remaining
  induction remaining with
  | zero =>
    intro index c c' absorbed hlen hindex hscan h
    cases h
    refine ⟨⟨c.queueResyncs, rfl⟩, Squeezed.refl, nofun, fun _ x hx _ => hx, fun _ _ x hx => ?_⟩
    have hall : c.ScannedTo c.outgoing.length := by rwa [hlen, ← hindex]
    exact hall.all hx
  | succ remaining ih =>
    intro index c c' absorbed hlen hindex hscan h
    have hlt : index < c.outgoing.length := by omega
    have hslot : c.outgoing[index]? = some c.outgoing[index] := List.getElem?_eq_getElem hlt
    rw [compactOthers, hslot] at h
    simp only at h
    set queued := c.outgoing[index] with hqueued
    split at h
    · next hpos =>
      cases hcompact : c.compactChannel (eventMessageChannel queued) with
      | mk c₁ inserted =>
      rw [hcompact] at h
      simp only at h
      rcases compactChannel_cases hcompact with
        ⟨rfl, rfl, hno⟩ | ⟨rfl, -, serverID, pre, delta, post, hqueue, hdelta, hpre, rfl⟩
      · -- nothing compacted: this slot joins the scanned ones
        refine ih hlen (by omega) (hscan.succ fun x hx _ => ?_) h
        obtain rfl : queued = x := Option.some.inj (hslot.symm.trans hx)
        exact hno.resolve_right fun hnone => hnone queued (getElem_mem hlt) rfl
      · have hsqueezed :
          Squeezed c.outgoing (pre ++ syncMarker serverID (eventMessageChannel queued) ::
            post.filter (eventMessageChannel · ≠ eventMessageChannel queued)) := by
          rw [hqueue, ← hdelta]
          exact Squeezed.refl.compact serverID (hdelta ▸ hpos) fun x hx => hdelta ▸ hpre x hx
        simp only [Bool.true_eq_false, if_false] at h
        split at h
        · next hown =>
          cases h
          refine ⟨⟨_, rfl⟩, hsqueezed, fun _ => ⟨hown ▸ hpos, serverID, ?_⟩, nofun, nofun⟩
          simp [hown]
        · next hother =>
          split at h
          · next hfree =>
            cases h
            refine ⟨⟨_, rfl⟩, hsqueezed, nofun, fun _ x hx hmarker => ?_,
              fun _ hfull => absurd hfull (Nat.ne_of_lt hfree)⟩
            exact hqueue ▸ mem_of_isSyncMarker hother hx hmarker
          · next hstill =>
            -- the lane kept its length, so the delta was the only one of its channel
            have hkeep : post.filter (eventMessageChannel · ≠ eventMessageChannel queued) = post :=
              filter_eq_of_length_le (hqueue ▸ hlen) (not_lt.mp hstill)
            have hlen' := le_antisymm (hsqueezed.length_le.trans hlen.le) (not_lt.mp hstill)
            have hscan' := hscan.compact serverID (c.queueResyncs + 1) hslot rfl hqueue hpre hkeep
            rw [← hkeep] at hscan'
            obtain ⟨⟨resyncs, hframe⟩, hsq, hmk, hnomk, hex⟩ := ih hlen' (by omega) hscan' h
            refine ⟨⟨resyncs, hframe⟩, hsqueezed.trans hsq, hmk, fun habs x hx hmarker => ?_, hex⟩
            exact hqueue ▸ mem_of_isSyncMarker hother (hnomk habs x hx hmarker) hmarker
    · next hpos =>
      refine ih hlen (by omega) (hscan.succ fun x hx hpos' => ?_) h
      obtain rfl : queued = x := Option.some.inj (hslot.symm.trans hx)
      exact absurd hpos' hpos

end Client

/-! ## What an enqueue does -/

/-- No queued event has the replacement key of `event`. -/
def Fresh (queue : List OutgoingEvent) (event : OutgoingEvent) : Prop :=
  ∀ key, replacementKey event = some key → ∀ x ∈ queue, replacementKey x ≠ some key

theorem replaceQueued_eq_none {key : ReplacementKey} (h : replaceQueued event key queue = none) :
    ∀ x ∈ queue, replacementKey x ≠ some key := by
  induction queue with
  | nil => simp
  | cons queued rest ih =>
    unfold replaceQueued at h
    split at h
    · cases h
    · next hkey =>
      exact forall_mem_cons.mpr ⟨hkey, ih (Option.map_eq_none_iff.mp h)⟩

theorem fresh_of_bind_eq_none
    (h : ((replacementKey event).bind fun key => replaceQueued event key queue) = none) :
    Fresh queue event := by
  intro key hkey
  rw [hkey] at h
  exact replaceQueued_eq_none h

/-- **All that `enqueueLocked` can do to the two lanes**, with the flag it returns. `resync` tells
for which channels the client can catch up by itself. -/
inductive Outcome (resync : Int → Bool) (outgoing priority : List OutgoingEvent)
    (event : OutgoingEvent) : List OutgoingEvent → List OutgoingEvent → Bool → Prop where
  | mediaFull : event.type.isMedia = true → priority.length = outgoingBufferSize →
      Outcome resync outgoing priority event outgoing priority false
  | media : event.type.isMedia = true → priority.length ≠ outgoingBufferSize →
      Outcome resync outgoing priority event outgoing (priority ++ [event]) true
  | stale {queued : OutgoingEvent} {key : ReplacementKey} : event.type.isMedia = false →
      replacementKey event = some key → replacementKey queued = some key → queued ∈ outgoing →
      isStale queued event = true →
      Outcome resync outgoing priority event outgoing priority true
  | replaced {pre post : List OutgoingEvent} {queued : OutgoingEvent} {key : ReplacementKey} :
      event.type.isMedia = false → replacementKey event = some key →
      replacementKey queued = some key → outgoing = pre ++ queued :: post →
      isStale queued event = false → (∀ x ∈ pre, replacementKey x ≠ some key) →
      Outcome resync outgoing priority event (pre ++ event :: post) priority true
  | absorbed {marker : OutgoingEvent} : event.type.isMedia = false →
      0 < eventMessageChannel event → marker ∈ outgoing →
      isSyncMarker (eventMessageChannel event) marker = true →
      Outcome resync outgoing priority event outgoing priority true
  | dropped : event.type.isTransient = true →
      Outcome resync outgoing priority event outgoing priority true
  | compacted {queue : List OutgoingEvent} {serverID : Int} : event.type.isMedia = false →
      0 < eventMessageChannel event → Squeezed outgoing queue →
      syncMarker serverID (eventMessageChannel event) ∈ queue →
      Outcome resync outgoing priority event queue priority true
  | full {queue : List OutgoingEvent} : event.type.isMedia = false →
      Fresh outgoing event → Squeezed outgoing queue → queue.length = outgoingBufferSize →
      (∀ x ∈ queue, 0 < eventMessageChannel x → resync (eventMessageChannel x) = false) →
      (0 < eventMessageChannel event →
        ∀ x ∈ queue, isSyncMarker (eventMessageChannel event) x = false) →
      Outcome resync outgoing priority event queue priority false
  | appended {queue : List OutgoingEvent} : event.type.isMedia = false →
      Fresh outgoing event → Squeezed outgoing queue → queue.length ≠ outgoingBufferSize →
      (0 < eventMessageChannel event →
        ∀ x ∈ queue, isSyncMarker (eventMessageChannel event) x = false) →
      Outcome resync outgoing priority event (queue ++ [event]) priority true

namespace Client

variable {c c' : Client} {event : OutgoingEvent} {accepted : Bool}

theorem appendOutgoing_cases (hmedia : event.type.isMedia = false) (hfresh : Fresh c.outgoing event)
    (hmarker : 0 < eventMessageChannel event →
      ∀ x ∈ c.outgoing, isSyncMarker (eventMessageChannel event) x = false)
    (h : c.appendOutgoing event = (c', accepted)) :
    Outcome c.canResync c.outgoing c.priority event c'.outgoing c'.priority accepted ∧
      ∃ resyncs, c' = { c with outgoing := c'.outgoing, queueResyncs := resyncs } := by
  unfold appendOutgoing at h
  split at h
  · next htransient =>
    cases h
    exact ⟨Outcome.dropped htransient.2, c.queueResyncs, rfl⟩
  · simp only at h
    -- the lane after the eviction of a transient event
    generalize hevict : (if c.outgoing.length = outgoingBufferSize then
      { c with outgoing := c.outgoing.eraseP (·.type.isTransient) } else c) = c₁ at h
    obtain ⟨hframe₁, hsq₁, hsub₁⟩ : c₁ = { c with outgoing := c₁.outgoing } ∧
        Squeezed c.outgoing c₁.outgoing ∧ ∀ x ∈ c₁.outgoing, x ∈ c.outgoing := by
      split at hevict <;> subst hevict
      · exact ⟨rfl, Squeezed.eraseP_transient _, fun x hx => mem_of_mem_eraseP hx⟩
      · exact ⟨rfl, Squeezed.refl, fun x hx => hx⟩
    split at h
    · next hfull =>
      cases hloop : compactOthers (eventMessageChannel event) 0 outgoingBufferSize c₁ with
      | mk c₂ absorbed =>
      rw [hloop] at h
      obtain ⟨⟨resyncs, hframe₂⟩, hsq₂, hown, hother, hex⟩ :=
        compactOthers_compacted hfull (by omega) (fun i hi => absurd hi (Nat.not_lt_zero i)) hloop
      have hsq := hsq₁.trans hsq₂
      have hframe : c₂ = { c with outgoing := c₂.outgoing, queueResyncs := resyncs } := by
        rw [hframe₂, hframe₁]
      have hresync : c₁.canResync = c.canResync := by rw [hframe₁]; rfl
      have hnone : absorbed = false → 0 < eventMessageChannel event →
          ∀ x ∈ c₂.outgoing, isSyncMarker (eventMessageChannel event) x = false := by
        intro habs hpos x hx
        by_contra hx'
        rw [Bool.not_eq_false] at hx'
        have := hmarker hpos x (hsub₁ x (hother habs x hx hx'))
        simp [hx'] at this
      cases absorbed with
      | true =>
        cases h
        obtain ⟨hpos, serverID, hmem⟩ := hown rfl
        refine ⟨?_, resyncs, hframe⟩
        rw [show c₂.priority = c.priority by rw [hframe]]
        exact Outcome.compacted hmedia hpos hsq hmem
      | false =>
        simp only [Bool.false_eq_true, if_false] at h
        split at h <;> obtain ⟨rfl, rfl⟩ := Prod.mk.inj h
        · next hstill =>
          refine ⟨?_, resyncs, hframe⟩
          rw [show c₂.priority = c.priority by rw [hframe]]
          exact Outcome.full hmedia hfresh hsq hstill (hresync ▸ hex rfl hstill) (hnone rfl)
        · next hfree =>
          refine ⟨?_, resyncs, by rw [hframe]⟩
          rw [show c₂.priority = c.priority by rw [hframe]]
          exact Outcome.appended hmedia hfresh hsq hfree (hnone rfl)
    · next hfree =>
      simp only [Bool.false_eq_true, if_false] at h
      cases h
      refine ⟨?_, c.queueResyncs, by rw [hframe₁]⟩
      rw [show c₁.priority = c.priority by rw [hframe₁]]
      exact Outcome.appended hmedia hfresh hsq₁ hfree fun hpos x hx => hmarker hpos x (hsub₁ x hx)

theorem enqueueLocked_cases (h : c.enqueueLocked event = (c', accepted)) :
    Outcome c.canResync c.outgoing c.priority event c'.outgoing c'.priority accepted ∧
      ∃ coalesced resyncs, c' = { c with
        outgoing := c'.outgoing, priority := c'.priority
        queueCoalesced := coalesced, queueResyncs := resyncs } := by
  unfold enqueueLocked at h
  split at h
  · next hmedia =>
    split at h <;> cases h
    · next hfull =>
      exact ⟨Outcome.mediaFull hmedia hfull, c.queueCoalesced, c.queueResyncs, rfl⟩
    · next hfree =>
      exact ⟨Outcome.media hmedia hfree, c.queueCoalesced, c.queueResyncs, rfl⟩
  · next hmedia =>
    rw [Bool.not_eq_true] at hmedia
    split at h
    · next queue hreplace =>
      cases h
      obtain ⟨key, hkey, hreplace⟩ := Option.bind_eq_some_iff.mp hreplace
      obtain ⟨pre, queued, post, hqueue, hqueued, hpre, rfl⟩ := replaceQueued_eq_some hreplace
      refine ⟨?_, c.queueCoalesced + 1, c.queueResyncs, rfl⟩
      cases hstale : isStale queued event with
      | true =>
        simp only [if_true]
        rw [← hqueue]
        exact Outcome.stale hmedia hkey hqueued (by simp [hqueue]) hstale
      | false =>
        simp only [Bool.false_eq_true, if_false]
        exact Outcome.replaced hmedia hkey hqueued hqueue hstale hpre
    · next hnokey =>
      have hfresh := fresh_of_bind_eq_none hnokey
      simp only at h
      split at h
      · next hmarker =>
        cases h
        obtain ⟨marker, hmem, his⟩ := any_eq_true.mp hmarker.2
        exact ⟨Outcome.absorbed hmedia hmarker.1 hmem his, c.queueCoalesced + 1,
          c.queueResyncs, rfl⟩
      · next hmarker =>
        have hnone : 0 < eventMessageChannel event →
            ∀ x ∈ c.outgoing, isSyncMarker (eventMessageChannel event) x = false := by
          intro hpos x hx
          by_contra hx'
          rw [Bool.not_eq_false] at hx'
          exact hmarker ⟨hpos, any_eq_true.mpr ⟨x, hx, hx'⟩⟩
        obtain ⟨hout, resyncs, hframe⟩ := appendOutgoing_cases hmedia hfresh hnone h
        refine ⟨hout, c.queueCoalesced, resyncs, ?_⟩
        rw [hframe]

/-- `c'` differs from `c` at most in its lanes, its counters and its legacy bookkeeping. -/
structure SameSettings (c c' : Client) : Prop where
  channelAccess : c'.channelAccess = c.channelAccess
  messageSync : c'.messageSync = c.messageSync
  multipleStreams : c'.multipleStreams = c.multipleStreams
  subscriptions : c'.subscriptions = c.subscriptions
  done : c'.done = c.done

theorem SameSettings.canResync (h : SameSettings c c') : c'.canResync = c.canResync := by
  funext channelID
  rw [Client.canResync, Client.canResync, h.messageSync, h.subscriptions]

theorem filterEvent_frame (c : Client) (event : OutgoingEvent) :
    ∃ legacy, (c.filterEvent event).1 = { c with legacyStreams := legacy } := by
  unfold filterEvent
  split
  · exact ⟨c.legacyStreams, rfl⟩
  · exact (filterLegacyStreamEvent_cases rfl).1

theorem filterEvent_of_readable (c : Client)
    (hsnap : event.data.isChannelSnapshot = false) (hstream : event.data.isStream = false)
    (hreadable : event.data.channelID = 0 ∨
      canAccessChannel c.channelAccess event.data.channelID = true) :
    c.filterEvent event = (c, some event) := by
  have hpass : filterChannelEvent c.channelAccess event = some event :=
    filterChannelEvent_eq_some.mpr ⟨hreadable, OutgoingEvent.restrict_eq_self hsnap⟩
  simp only [filterEvent, hpass]
  exact filterLegacyStreamEvent_of_not_stream c hstream

theorem enqueue_cases (h : c.enqueue event = (c', accepted)) : SameSettings c c' ∧
      ((c.done = true ∧ accepted = false ∧ c'.outgoing = c.outgoing ∧ c'.priority = c.priority) ∨
        (c.done = false ∧ accepted = true ∧ (c.filterEvent event).2 = none ∧
          c'.outgoing = c.outgoing ∧ c'.priority = c.priority) ∨
        (c.done = false ∧ ∃ filtered, (c.filterEvent event).2 = some filtered ∧
          Outcome c.canResync c.outgoing c.priority filtered c'.outgoing c'.priority
          accepted)) := by
  unfold enqueue at h
  split at h
  · next hdone =>
    cases h
    exact ⟨⟨rfl, rfl, rfl, rfl, rfl⟩, Or.inl ⟨hdone, rfl, rfl, rfl⟩⟩
  · next hdone =>
    rw [Bool.not_eq_true] at hdone
    obtain ⟨legacy, hlegacy⟩ := filterEvent_frame c event
    cases hfiltered : c.filterEvent event with
    | mk c₁ result =>
    rw [hfiltered] at h hlegacy
    simp only at hlegacy
    subst hlegacy
    cases result with
    | none =>
      cases h
      exact ⟨⟨rfl, rfl, rfl, rfl, rfl⟩, Or.inr (Or.inl ⟨hdone, rfl, rfl, rfl, rfl⟩)⟩
    | some filtered =>
      simp only at h
      cases hlocked : Client.enqueueLocked { c with legacyStreams := legacy } filtered with
      | mk c₂ ok =>
      rw [hlocked] at h
      obtain ⟨hout, coalesced, resyncs, hframe⟩ := enqueueLocked_cases hlocked
      have hsame : SameSettings c c₂ := by
        rw [hframe]
        exact ⟨rfl, rfl, rfl, rfl, rfl⟩
      cases ok <;> cases h
      · exact ⟨⟨hsame.1, hsame.2, hsame.3, hsame.4, hsame.5⟩,
          Or.inr (Or.inr ⟨hdone, filtered, rfl, hout⟩)⟩
      · exact ⟨⟨hsame.1, hsame.2, hsame.3, hsame.4, hsame.5⟩,
          Or.inr (Or.inr ⟨hdone, filtered, rfl, hout⟩)⟩

theorem popOutgoing_cases {popped : Option OutgoingEvent} (h : c.popOutgoing = (c', popped)) :
    SameSettings c c' ∧
      ((popped = none ∧ c.outgoing = [] ∧ c'.outgoing = [] ∧ c'.priority = c.priority) ∨
        (∃ event, popped = some event ∧ c.priority = event :: c'.priority ∧
          c'.outgoing = c.outgoing) ∨
        (∃ event, popped = some event ∧ c.outgoing = event :: c'.outgoing ∧
          c'.priority = c.priority)) := by
  unfold popOutgoing at h
  split at h
  · next hmedia =>
    split at h
    · next hnil => simp [hnil] at hmedia
    · next event rest hcons =>
      cases h
      exact ⟨⟨rfl, rfl, rfl, rfl, rfl⟩, Or.inr (Or.inl ⟨event, rfl, hcons, rfl⟩)⟩
  · split at h
    · next hnil =>
      cases h
      exact ⟨⟨rfl, rfl, rfl, rfl, rfl⟩, Or.inl ⟨rfl, hnil, hnil, rfl⟩⟩
    · next event rest hcons =>
      cases h
      exact ⟨⟨rfl, rfl, rfl, rfl, rfl⟩, Or.inr (Or.inr ⟨event, rfl, hcons, rfl⟩)⟩

end Client

end Voxhold.Realtime
