/-
# Voxhold.Realtime.Replies — when a reply reaches its requester

A reply is an event with a `RequestID`. It has no replacement key and is no chat delta, but the stop
branch of `filterLegacyStreamEvent` does not look at the `RequestID`, snapshots are rewritten, and a
full lane gives up the transient types. `reply_kept_iff` says exactly when none of this loses it.
-/

import Mathlib.Data.List.Count
import Voxhold.Realtime.LegacyStreams

namespace Voxhold.Realtime

open List

variable {event : OutgoingEvent}

/-! ## Occurrences of a reply in the lanes -/

/-- An event the queue has no reason to give up: an answer that is not of a transient type. -/
structure OutgoingEvent.Lasting (event : OutgoingEvent) : Prop where
  reply : event.requestID ≠ ""
  lasting : event.type.isTransient = false

section Counts

variable {queue queue' outgoing priority outgoing' priority' : List OutgoingEvent}
  {event x : OutgoingEvent} {resync : Int → Bool} {accepted : Bool}

theorem eventMessageChannel_of_reply (h : x.requestID ≠ "") : eventMessageChannel x = 0 := by
  simp [eventMessageChannel, h]

theorem OutgoingEvent.Lasting.ne_of_delta (hx : x.Lasting) (h : 0 < eventMessageChannel event) :
    event ≠ x := by
  rintro rfl
  rw [eventMessageChannel_of_reply hx.reply] at h
  exact absurd h (lt_irrefl 0)

theorem OutgoingEvent.Lasting.ne_of_key {key : ReplacementKey} (hx : x.Lasting)
    (h : replacementKey event = some key) : event ≠ x := by
  rintro rfl
  simp [replacementKey, hx.reply] at h

theorem OutgoingEvent.Lasting.ne_of_transient (hx : x.Lasting)
    (h : event.type.isTransient = true) : event ≠ x := by
  rintro rfl
  simp [hx.lasting] at h

theorem Squeezed.count_eq (h : Squeezed queue queue') (hx : x.Lasting) :
    queue'.count x = queue.count x := by
  induction h with
  | refl => rfl
  | evict _ htransient ih =>
    rw [← ih]
    simp [count_append, count_cons_of_ne (hx.ne_of_transient htransient)]
  | @compact pre post delta serverID _ hpos _ ih =>
    have hkept : (post.filter (eventMessageChannel · ≠ eventMessageChannel delta)).count x =
        post.count x := by
      refine count_filter ?_
      rw [eventMessageChannel_of_reply hx.reply]
      simpa using hpos.ne
    have hmarker : syncMarker serverID (eventMessageChannel delta) ≠ x := by
      rintro rfl
      exact hx.reply rfl
    rw [← ih]
    simp only [count_append, count_cons_of_ne hmarker,
      count_cons_of_ne (hx.ne_of_delta hpos), hkept]

theorem Outcome.count_eq (h : Outcome resync outgoing priority event outgoing' priority' accepted)
    (hx : x.Lasting) : (priority' ++ outgoing').count x =
      (priority ++ outgoing).count x + if accepted = true ∧ event = x then 1 else 0 := by
  cases h with
  | mediaFull => simp
  | media =>
    simp only [count_append, count_singleton, beq_iff_eq, true_and]
    omega
  | stale _ hkey => simp [hx.ne_of_key hkey]
  | replaced _ hkey hqueued hqueue =>
    simp [hqueue, count_append, count_cons_of_ne, hx.ne_of_key hkey, hx.ne_of_key hqueued]
  | absorbed _ hpos => simp [hx.ne_of_delta hpos]
  | dropped htransient => simp [hx.ne_of_transient htransient]
  | compacted _ hpos hsq => simp [count_append, hsq.count_eq hx, hx.ne_of_delta hpos]
  | full _ _ hsq => simp [count_append, hsq.count_eq hx]
  | appended _ _ hsq =>
    simp only [count_append, count_singleton, beq_iff_eq, true_and, hsq.count_eq hx]
    omega

theorem count_le_filterMap_filterChannelEvent {ids : Option (Finset Int)} (h : Readable ids x)
    (queue : List OutgoingEvent) :
    queue.count x ≤ (queue.filterMap (filterChannelEvent ids)).count x := by
  induction queue with
  | nil => exact le_rfl
  | cons head rest ih =>
    by_cases hhead : head = x
    · subst hhead
      rw [filterMap_cons_some h, count_cons_self, count_cons_self]
      omega
    · rw [count_cons_of_ne hhead]
      refine ih.trans (List.Sublist.count_le x ?_)
      cases hfilter : filterChannelEvent ids head with
      | none => rw [filterMap_cons_none hfilter]
      | some filtered =>
        rw [filterMap_cons_some hfilter]
        exact sublist_cons_self _ _

end Counts

/-! ## Staying until popped -/

namespace Client

/-- Both lanes, media first. -/
def queued (c : Client) : List OutgoingEvent := c.priority ++ c.outgoing

/-- From `c` on no queued occurrence of `event` is lost: whatever the connection goes through while
the event stays readable, it is popped or still queued. -/
def Retains (c : Client) (event : OutgoingEvent) : Prop :=
  ∀ ops : List ClientOp, (∀ ids, .replaceChannelAccess ids ∈ ops → Readable ids event) →
    c.queued.count event ≤ (c.popped ops).count event + (c.run ops).queued.count event

/-- An `enqueue` puts the event itself into a lane, where it stays until popped. -/
def Answers (c : Client) (event : OutgoingEvent) : Prop :=
  (c.enqueue event).1.queued.count event = c.queued.count event + 1 ∧
    (c.enqueue event).1.Retains event

variable {c : Client} {event x : OutgoingEvent}

theorem count_queued_enqueue (c : Client) (event : OutgoingEvent) (hx : x.Lasting) :
    (c.enqueue event).1.queued.count x = c.queued.count x +
      if (c.enqueue event).2 = true ∧ (c.filterEvent event).2 = some x then 1 else 0 := by
  cases henqueue : c.enqueue event with
  | mk c' accepted =>
  obtain ⟨-, ⟨-, rfl, hout, hprio⟩ | ⟨-, -, hnone, hout, hprio⟩ | ⟨-, filtered, hsome, houtcome⟩⟩ :=
    enqueue_cases henqueue
  · simp [queued, hout, hprio]
  · simp [queued, hout, hprio, hnone]
  · simp only [hsome, Option.some.injEq]
    exact houtcome.count_eq hx

theorem count_queued_apply {op : ClientOp} (hx : x.Lasting)
    (hop : ∀ ids, op = .replaceChannelAccess ids → Readable ids x) :
    c.queued.count x ≤ (c.pops op).toList.count x + (c.apply op).queued.count x := by
  cases op with
  | enqueue event =>
    have := count_queued_enqueue c event hx
    show _ ≤ _ + (c.enqueue event).1.queued.count x
    omega
  | popOutgoing =>
    cases hpop : c.popOutgoing with
    | mk c' popped =>
    simp only [pops, Client.apply, hpop]
    obtain ⟨-, ⟨rfl, hnil, hout, hprio⟩ | ⟨event, rfl, hcons, hout⟩ | ⟨event, rfl, hcons, hprio⟩⟩ :=
      popOutgoing_cases hpop
    · simp [queued, hnil, hout, hprio]
    · simp [queued, hcons, hout, count_append, count_cons]
      omega
    · simp [queued, hcons, hprio, count_append, count_cons]
      omega
  | replaceChannelAccess ids =>
    have hreadable := hop ids rfl
    have hprio := count_le_filterMap_filterChannelEvent hreadable c.priority
    have hout := count_le_filterMap_filterChannelEvent hreadable c.outgoing
    simp only [queued, pops, Client.apply, Client.replaceChannelAccess, count_append]
    omega
  | addSubscription | removeSubscription | enableMessageSync | enableMultipleStreams | close =>
    simp [queued, pops, Client.apply]

theorem retains_of_lasting (c : Client) (hx : x.Lasting) : c.Retains x := by
  intro ops hops
  induction ops generalizing c with
  | nil => simp [popped]
  | cons op ops ih =>
    have hstep : c.queued.count x ≤ (c.pops op).toList.count x + (c.apply op).queued.count x :=
      count_queued_apply hx fun ids hop => hops ids (by simp [hop])
    have hrest := ih (c.apply op) fun ids hids => hops ids (mem_cons_of_mem _ hids)
    simp only [popped, run_cons, count_append]
    omega

theorem done_of_enqueue (h : (c.enqueue event).2 = true) : (c.enqueue event).1.done = false := by
  cases henqueue : c.enqueue event with
  | mk c' accepted =>
  rw [henqueue] at h
  obtain ⟨hsame, ⟨-, hfalse, -⟩ | ⟨hdone, -⟩ | ⟨hdone, -⟩⟩ := enqueue_cases henqueue
  · rw [hfalse] at h
    cases h
  · exact hsame.done.trans hdone
  · exact hsame.done.trans hdone

/-! ## Transient replies are given up -/

/-- An event that a full lane makes room for. -/
def flood : OutgoingEvent where
  encoding := none
  requestID := "flood"
  type := .pong
  data := .payload 0
  wellTyped := ⟨nofun, nofun⟩

theorem enqueue_flood (h : c.WellFormed) (hdone : c.done = false)
    (hsome : 0 < c.outgoing.countP (·.type.isTransient)) : (c.enqueue flood).1.done = false ∧
      outgoingBufferSize - (c.enqueue flood).1.outgoing.length +
          (c.enqueue flood).1.outgoing.countP (·.type.isTransient) <
        outgoingBufferSize - c.outgoing.length + c.outgoing.countP (·.type.isTransient) := by
  have hfilter : c.filterEvent flood = (c, some flood) :=
    filterEvent_of_readable c rfl rfl (Or.inl rfl)
  have hlocked : c.enqueueLocked flood = c.appendOutgoing flood := rfl
  have hlast : flood.type.isTransient = false := rfl
  obtain ⟨victim, hmem, hvictim⟩ := countP_pos_iff.mp hsome
  have hlong := h.outgoing_bounded
  have happend : ∃ queue, c.appendOutgoing flood = ({ c with outgoing := queue ++ [flood] }, true) ∧
      outgoingBufferSize - (queue.length + 1) + queue.countP (·.type.isTransient) <
        outgoingBufferSize - c.outgoing.length + c.outgoing.countP (·.type.isTransient) := by
    by_cases hfull : c.outgoing.length = outgoingBufferSize
    · -- a transient event gives its slot up
      obtain ⟨gone, pre, post, -, hgone, hsplit, herase⟩ :=
        exists_of_eraseP (p := fun e : OutgoingEvent => e.type.isTransient) hmem hvictim
      have hlen : (pre ++ post).length + 1 = outgoingBufferSize := by
        rw [← hfull, hsplit]
        simp only [length_append, length_cons]
        omega
      have hcount : (pre ++ post).countP (·.type.isTransient) + 1 =
          c.outgoing.countP (·.type.isTransient) := by
        rw [hsplit]
        simp only [countP_append, countP_cons, hgone, if_true]
        omega
      refine ⟨pre ++ post, ?_, by omega⟩
      have hfree : (pre ++ post).length ≠ outgoingBufferSize := by omega
      simp only [appendOutgoing, hfull, herase, hfree, hlast, Bool.false_eq_true, and_false,
        if_false, if_true]
    · refine ⟨c.outgoing, ?_, by omega⟩
      simp [appendOutgoing, hfull]
  obtain ⟨queue, hqueue, hless⟩ := happend
  have henqueue : (c.enqueue flood).1.outgoing = queue ++ [flood] ∧
      (c.enqueue flood).1.done = c.done := by
    simp [enqueue, hdone, hfilter, hlocked, hqueue]
  refine ⟨henqueue.2.trans hdone, ?_⟩
  rw [henqueue.1]
  simpa [countP_append, hlast] using hless

theorem exists_flood (h : c.WellFormed) (hdone : c.done = false) :
    ∃ n, (c.run (List.replicate n (.enqueue flood))).outgoing.countP (·.type.isTransient) = 0 := by
  induction hslack : outgoingBufferSize - c.outgoing.length +
    c.outgoing.countP (·.type.isTransient) using Nat.strong_induction_on generalizing c with
  | _ slack ih =>
    rcases Nat.eq_zero_or_pos (c.outgoing.countP (·.type.isTransient)) with hzero | hpos
    · exact ⟨0, hzero⟩
    · obtain ⟨hdone', hless⟩ := enqueue_flood h hdone hpos
      obtain ⟨n, hn⟩ := ih _ (hslack ▸ hless) (h.enqueue flood) hdone' rfl
      exact ⟨n + 1, hn⟩

theorem popped_flood (c : Client) (n : Nat) :
    c.popped (List.replicate n (.enqueue flood)) = [] := by
  induction n generalizing c with
  | zero => rfl
  | succ n ih => simp [replicate_succ, popped, pops, ih]

theorem not_retains_of_transient (h : c.WellFormed) (hdone : c.done = false)
    (htransient : event.type.isTransient = true) (hmem : 0 < c.queued.count event) :
    ¬ c.Retains event := by
  intro hretains
  obtain ⟨n, hn⟩ := exists_flood h hdone
  have hkept := hretains (List.replicate n (.enqueue flood)) fun ids hids => by
    simp [mem_replicate] at hids
  rw [popped_flood, count_nil, Nat.zero_add] at hkept
  have hwf := h.run (List.replicate n (.enqueue flood))
  have hstill := count_pos_iff.mp (lt_of_lt_of_le hmem hkept)
  rcases mem_append.mp hstill with hprio | hout
  · have hmedia := hwf.priority_lane event hprio
    cases htype : event.type <;> simp_all [EventType.isTransient, EventType.isMedia]
  · exact countP_eq_zero.mp hn event hout htransient

/-! ## Passing the filters untouched -/

theorem filterEvent_eq_self_iff : (c.filterEvent event).2 = some event ↔
      Readable c.channelAccess event ∧ (filterLegacyStreamEvent c event).2 = some event := by
  constructor
  · intro h
    have hreadable := (filterEvent_eq_some h).1
    refine ⟨hreadable, ?_⟩
    rw [filterEvent, show filterChannelEvent c.channelAccess event = some event from hreadable] at h
    exact h
  · rintro ⟨hreadable, hlegacy⟩
    rw [filterEvent, show filterChannelEvent c.channelAccess event = some event from hreadable]
    exact hlegacy

end Client

theorem primaryStreams_eq_self_iff (streams : List StreamData)
    (primary : Int → Option ConnectionID) : (primaryStreams streams primary).2 = streams ↔
      (streams.map (·.channelID)).Nodup ∧ ∀ value ∈ streams, primary value.channelID = none := by
  induction streams generalizing primary with
  | nil => simp [primaryStreams]
  | cons value rest ih =>
    unfold primaryStreams
    split
    · next id hid =>
      -- the first broadcast is left out: the result is shorter than the list
      have hlen := (primaryStreams_sublist rest primary).length_le
      constructor
      · intro heq
        rw [heq, length_cons] at hlen
        omega
      · rintro ⟨-, hnone⟩
        rw [hnone value mem_cons_self] at hid
        cases hid
    · next hid =>
      simp only [List.cons.injEq, true_and, ih, map_cons, nodup_cons, mem_map,
        forall_mem_cons, hid]
      constructor
      · rintro ⟨hnodup, hfree⟩
        have hother : ∀ other ∈ rest, other.channelID ≠ value.channelID := by
          intro other hmem heq
          have := hfree other hmem
          simp [heq] at this
        refine ⟨⟨?_, hnodup⟩, fun other hmem => ?_⟩
        · rintro ⟨other, hmem, heq⟩
          exact hother other hmem heq
        · simpa [hother other hmem] using hfree other hmem
      · rintro ⟨⟨hnew, hnodup⟩, hfree⟩
        refine ⟨hnodup, fun other hmem => ?_⟩
        have hother : other.channelID ≠ value.channelID := fun heq => hnew ⟨other, hmem, heq⟩
        simpa [hother] using hfree other hmem

theorem OutgoingEvent.withStreams_eq_self_iff {kept : List StreamData}
    {hsync : event.type ≠ .channelSyncRequired} : event.withStreams kept hsync = event ↔
      event.encoding = none ∧ event.data = .streamSnapshot kept := by
  constructor
  · intro h
    exact ⟨(congrArg OutgoingEvent.encoding h).symm, (congrArg OutgoingEvent.data h).symm⟩
  · rintro ⟨hencoding, hdata⟩
    cases event
    subst hencoding hdata
    rfl

theorem filterLegacyStreamEvent_reply {c : Client} (hreply : event.requestID ≠ "") :
    (filterLegacyStreamEvent c event).2 = some event ↔
      (c.multipleStreams = false → ∀ streams, event.data = .streamSnapshot streams →
        event.encoding = none ∧ (streams.map (·.channelID)).Nodup) ∧
      (c.multipleStreams = false → ∀ ch publisher, event.data = .streamStopped ch publisher →
        event.type = .stream .stopped → publisher ≠ 0 →
        ∀ id, c.legacyStreams ch = some id → publisher = id) := by
  unfold filterLegacyStreamEvent
  cases hmulti : c.multipleStreams with
  | true => simp
  | false =>
    simp only [Bool.false_eq_true, if_false, forall_const]
    split
    · next streams hdata =>
      have hkept := primaryStreams_eq_self_iff streams fun _ => none
      simp only [implies_true, and_true] at hkept
      simp only [Option.some.injEq, OutgoingEvent.withStreams_eq_self_iff, hdata,
        EventData.streamSnapshot.injEq, forall_eq', reduceCtorEq, false_implies, implies_true,
        and_true, ← hkept]
      exact and_congr_right fun _ => eq_comm
    · next value hdata => simp [hdata, hreply]
    · next value hdata => simp [hdata]
    · next ch publisher hdata =>
      by_cases htype : event.type = .stream .stopped
      · cases hknown : c.legacyStreams ch with
        | none => simp [htype, hknown, hdata]
        | some id =>
          by_cases hid : publisher = id
          · simp [htype, hknown, hdata, hid]
          · by_cases hzero : publisher = 0 <;> simp [htype, hknown, hdata, hid, hzero]
      · simp [htype, hdata]
    · next h₁ h₂ h₃ h₄ =>
      refine iff_of_true rfl ⟨fun streams hdata => absurd hdata (h₁ streams), ?_⟩
      exact fun ch publisher hdata => absurd hdata (h₄ ch publisher)

/-! ## The exact condition -/

/-- Nothing on the way of a reply to this client's lanes alters it, hides it or may later give it
up. -/
structure Client.Unhindered (c : Client) (event : OutgoingEvent) : Prop where
  lasting : event.type.isTransient = false
  snapshot : event.data.isChannelSnapshot = true →
    event.encoding = none ∧ event.data.restrict c.channelAccess = event.data
  catalog : c.multipleStreams = false → ∀ streams, event.data = .streamSnapshot streams →
    (streams.map (·.channelID)).Nodup
  stop : c.multipleStreams = false → ∀ ch publisher, event.data = .streamStopped ch publisher →
    event.type = .stream .stopped → publisher ≠ 0 →
    ∀ id, c.legacyStreams ch = some id → publisher = id

theorem Client.unhindered_iff {c : Client} (hevent : event.Lasting)
    (haccess : event.data.channelID = 0 ∨
      canAccessChannel c.channelAccess event.data.channelID = true) :
    c.Unhindered event ↔ (c.filterEvent event).2 = some event := by
  rw [filterEvent_eq_self_iff, readable_iff, filterLegacyStreamEvent_reply hevent.reply]
  constructor
  · rintro ⟨-, hsnapshot, hcatalog, hstop⟩
    refine ⟨⟨haccess, fun hsnap => (hsnapshot hsnap).1, ?_⟩, fun hlegacy streams hdata => ?_, hstop⟩
    · cases hsnap : event.data.isChannelSnapshot with
      | true => exact (hsnapshot hsnap).2
      | false => exact EventData.restrict_of_not_snapshot hsnap
    · exact ⟨(hsnapshot (by rw [hdata]; rfl)).1, hcatalog hlegacy streams hdata⟩
  · rintro ⟨⟨-, hencoding, hrestrict⟩, hcatalog, hstop⟩
    exact ⟨hevent.lasting, fun hsnap => ⟨hencoding hsnap, hrestrict⟩,
      fun hlegacy streams hdata => (hcatalog hlegacy streams hdata).2, hstop⟩

/-- **When a reply is kept.** In every state a connection reaches and for every reply about an
accessible channel that `enqueue` does not refuse: the reply itself gets into a lane and stays there
until popped if and only if nothing on its way hinders it. -/
theorem reply_kept_iff (ops : List ClientOp) (event : OutgoingEvent) (hreply : event.requestID ≠ "")
    (haccess : event.data.channelID = 0 ∨
      canAccessChannel (newClient.run ops).channelAccess event.data.channelID = true)
    (haccepted : ((newClient.run ops).enqueue event).2 = true) :
    (newClient.run ops).Answers event ↔ (newClient.run ops).Unhindered event := by
  have hwf := Client.WellFormed.newClient.run ops
  constructor
  · rintro ⟨hcount, hretains⟩
    -- only an open client accepts, and only a lasting type is retained
    have hlasting : event.type.isTransient = false := by
      by_contra htransient
      rw [Bool.not_eq_false] at htransient
      exact Client.not_retains_of_transient (hwf.enqueue event) (Client.done_of_enqueue haccepted)
        htransient (by omega) hretains
    have hevent : event.Lasting := ⟨hreply, hlasting⟩
    rw [Client.unhindered_iff hevent haccess]
    by_contra hfilter
    rw [Client.count_queued_enqueue _ _ hevent] at hcount
    simp [hfilter] at hcount
  · intro hfree
    have hevent : event.Lasting := ⟨hreply, hfree.lasting⟩
    have hfilter := (Client.unhindered_iff hevent haccess).mp hfree
    refine ⟨?_, Client.retains_of_lasting _ hevent⟩
    rw [Client.count_queued_enqueue _ _ hevent]
    simp [haccepted, hfilter]

/-- A reply about a voice join on a connection without a policy. -/
def Sample.joinedReply : OutgoingEvent where
  encoding := none
  requestID := "join"
  type := .voice .joined
  data := .voiceJoined ⟨1, 7, 1, 5⟩
  wellTyped := by decide

theorem reply_kept_iff_joined :
    newClient.Answers Sample.joinedReply ↔ newClient.Unhindered Sample.joinedReply :=
  reply_kept_iff [] Sample.joinedReply (by decide) (by decide) (by decide)

/-! ## The reply to a stop request -/

/-- A `stream.stopped` event; `requestID` is empty for the broadcast to the server. -/
def streamStoppedEvent (requestID : String) (channelID : Int) (publisher : ConnectionID) :
    OutgoingEvent where
  encoding := none
  requestID := requestID
  type := .stream .stopped
  data := .streamStopped channelID publisher
  wellTyped := ⟨nofun, nofun⟩

/-- The `stream.started` event of `announceLegacyStreamReplacement`. -/
def streamStartedEvent (value : StreamData) : OutgoingEvent where
  encoding := none
  requestID := ""
  type := .stream .started
  data := .stream value
  wellTyped := ⟨nofun, nofun⟩

/-- What a stop request sends to its own legacy client before the reply, when `next` is the first
other broadcast of the channel: `leaveStream` publishes the stop to the whole server and then
announces the replacement. -/
def stopAnnouncements (channelID : Int) (publisher : ConnectionID) (next : StreamData) :
    List ClientOp :=
  [.enqueue (streamStoppedEvent "" channelID publisher), .enqueue (streamStartedEvent next)]

/-- Connection 1 publishes in channel 5, where connection 2 publishes too, and stops. `enqueue`
reports the reply as sent, but the reply is in no lane. -/
theorem stop_reply_lost : ¬ ∀ (ops : List ClientOp) (event : OutgoingEvent), event.requestID ≠ "" →
      (event.data.channelID = 0 ∨
        canAccessChannel (newClient.run ops).channelAccess event.data.channelID = true) →
      ((newClient.run ops).enqueue event).2 = true → (newClient.run ops).Answers event := by
  intro h
  have hcount := (h (stopAnnouncements 5 1 ⟨1, 5, 2⟩) (streamStoppedEvent "stop" 5 1)
    (by decide) (by decide) (by decide)).1
  revert hcount
  decide

end Voxhold.Realtime
