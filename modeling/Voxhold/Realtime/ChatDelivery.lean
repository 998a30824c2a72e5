/-
# Voxhold.Realtime.ChatDelivery — no chat event is lost silently

An accepted chat delta may be absorbed, superseded or compacted, but the client gets the delta
itself, or a newer reaction count of the same message, or a `channel.sync_required` marker.
-/

import Voxhold.Realtime.Delivery
import Voxhold.Realtime.MessageEvents

namespace Voxhold.Realtime

open List

/-! ## The obligation -/

/-- What an accepted event is owed: `available` are the events popped since, or still queued, and
`history` the events that were in the queue at some time since. -/
inductive Delivered (history available : List OutgoingEvent) : OutgoingEvent → Prop where
  | present {event : OutgoingEvent} : event ∈ available → Delivered history available event
  | resync {event marker : OutgoingEvent} : marker ∈ available →
      isSyncMarker (eventMessageChannel event) marker = true → Delivered history available event
  | superseded {event newer : OutgoingEvent} {value value' : ReactionsData} :
      event.data = .reactions value → newer.data = .reactions value' →
      value'.messageID = value.messageID → value.revision ≤ value'.revision → newer ∈ history →
      Delivered history available newer → Delivered history available event

/-- The events with an obligation: chat deltas, and the reaction counts that may supersede them. -/
def Tracked (event : OutgoingEvent) : Prop :=
  0 < eventMessageChannel event ∨ event.data.isReactions = true

theorem Delivered.transfer {history history' available later : List OutgoingEvent}
    {event : OutgoingEvent} (h : Delivered history available event) (hevent : Tracked event)
    (hhistory : ∀ x ∈ history, x.data.isReactions = true → x ∈ history')
    (hmarkers : ∀ x ∈ available, ∀ ch, isSyncMarker ch x = true → x ∈ later)
    (htracked : ∀ x ∈ available, Tracked x → Delivered history' later x) :
    Delivered history' later event := by
  induction h with
  | present hmem => exact htracked _ hmem hevent
  | resync hmem hmarker => exact Delivered.resync (hmarkers _ hmem _ hmarker) hmarker
  | @superseded _ newer _ _ hvalue hvalue' hid hrev hmem _ ih =>
    have hnewer : newer.data.isReactions = true := by
      rw [hvalue']
      rfl
    exact Delivered.superseded hvalue hvalue' hid hrev (hhistory _ hmem hnewer) (ih (Or.inr hnewer))

/-! ## Tracked events and the classification -/

section Classification

variable {event : OutgoingEvent} {key : ReplacementKey}

theorem delta_cases (h : 0 < eventMessageChannel event) : event.requestID = "" ∧
      ((∃ value, event.type = .messageReactionsChanged ∧ event.data = .reactions value) ∨
        (∃ ch id, (event.type = .messageCreated ∨ event.type = .messageUpdated) ∧
          event.data = .messageCreated ch id) ∨
        (∃ ch id, (event.type = .messageDeleted ∨ event.type = .messageUnpinned) ∧
          event.data = .messageDeleted ch id) ∨
        ∃ ch id, event.type = .messagePinned ∧ event.data = .messagePinned ch id) := by
  unfold eventMessageChannel at h
  split at h
  · cases h
  · next hrequest =>
    refine ⟨by simpa using hrequest, ?_⟩
    split at h <;> simp_all

theorem Tracked.type_cases (h : Tracked event) :
    event.type.isTransient = false ∧ event.type.isMedia = false := by
  rcases h with hpos | hreactions
  · obtain ⟨-, ⟨_, htype, -⟩ | ⟨_, _, htype | htype, -⟩ | ⟨_, _, htype | htype, -⟩ |
      ⟨_, _, htype, -⟩⟩ := delta_cases hpos <;> rw [htype] <;> exact ⟨rfl, rfl⟩
  · rw [event.wellTyped.1 hreactions]
    exact ⟨rfl, rfl⟩

theorem Tracked.isReactions_of_key (h : Tracked event) (hkey : replacementKey event = some key) :
    event.data.isReactions = true := by
  refine h.elim (fun hpos => ?_) id
  obtain ⟨-, ⟨_, -, hdata⟩ | ⟨_, _, htype | htype, hdata⟩ | ⟨_, _, htype | htype, hdata⟩ |
    ⟨_, _, htype, hdata⟩⟩ := delta_cases hpos
  · rw [hdata]
    rfl
  all_goals simp [replacementKey, htype, hdata] at hkey

theorem replacementKey_of_isReactions (hdata : event.data.isReactions = true)
    (hkey : replacementKey event = some key) :
    ∃ value, event.data = .reactions value ∧ key = .reactions value.messageID := by
  have htype := event.wellTyped.1 hdata
  cases hvalue : event.data with
  | reactions value =>
    refine ⟨value, rfl, ?_⟩
    simp only [replacementKey, htype, hvalue, Option.ite_none_left_eq_some] at hkey
    exact (Option.some.inj hkey.2).symm
  | _ => simp [hvalue, EventData.isReactions] at hdata

theorem data_of_key_reactions {messageID : Int}
    (h : replacementKey event = some (.reactions messageID)) :
    ∃ value, event.data = .reactions value ∧ value.messageID = messageID := by
  unfold replacementKey at h
  split at h
  · cases h
  · split at h
    · simp at h
    · simp at h
    · split at h
      · next value hdata => exact ⟨value, hdata, by simpa using h⟩
      all_goals simp at h

theorem Tracked.same_message {other : OutgoingEvent} (h : Tracked event)
    (hkey : replacementKey event = some key) (hother : replacementKey other = some key) :
    ∃ value value', event.data = .reactions value ∧ other.data = .reactions value' ∧
      value'.messageID = value.messageID := by
  obtain ⟨value, hvalue, rfl⟩ := replacementKey_of_isReactions (h.isReactions_of_key hkey) hkey
  obtain ⟨value', hvalue', hid⟩ := data_of_key_reactions hother
  exact ⟨value, value', hvalue, hvalue', hid⟩

end Classification

/-! ## One operation -/

section Lanes

variable {queue queue' outgoing priority outgoing' priority' history : List OutgoingEvent}
  {event : OutgoingEvent} {resync : Int → Bool} {accepted : Bool}
  {ch : Int} {x : OutgoingEvent}

theorem isSyncMarker_type (h : isSyncMarker ch x = true) : x.type = .channelSyncRequired := by
  simp only [isSyncMarker, Bool.and_eq_true, decide_eq_true_eq] at h
  exact h.1

theorem isSyncMarker_no_key (h : isSyncMarker ch x = true) : replacementKey x = none := by
  simp only [isSyncMarker, Bool.and_eq_true, decide_eq_true_eq] at h
  have hdata := h.2
  cases hx : x.data <;> simp_all [EventData.subscriptionChannel, replacementKey]

theorem Squeezed.marker_mem (h : Squeezed queue queue')
    (hx : x ∈ queue) (hmarker : isSyncMarker ch x = true) : x ∈ queue' := by
  induction h with
  | refl => exact hx
  | @evict pre post queued _ htransient ih =>
    have hne : x ≠ queued := by
      rintro rfl
      rw [isSyncMarker_type hmarker] at htransient
      cases htransient
    simpa [hne] using ih
  | @compact pre post delta serverID _ hpos _ ih =>
    have hzero : eventMessageChannel x = 0 := by
      simp [eventMessageChannel, isSyncMarker_type hmarker]
    have hne : x ≠ delta := by
      rintro rfl
      omega
    rcases mem_append.mp ih with hpre | hpost
    · exact mem_append_left _ hpre
    · have hpost := (mem_cons.mp hpost).resolve_left hne
      refine mem_append_right _ (mem_cons_of_mem _ (mem_filter.mpr ⟨hpost, ?_⟩))
      simp only [decide_eq_true_eq]
      omega

theorem Squeezed.delivered (h : Squeezed queue queue') (hx : x ∈ queue)
    (htracked : Tracked x) : Delivered history queue' x := by
  induction h with
  | refl => exact Delivered.present hx
  | @evict pre post queued _ htransient ih =>
    refine ih.transfer htracked (fun _ h _ => h) (fun y hy ch hmarker => ?_) fun y hy hy' => ?_
    · exact (Squeezed.refl.evict htransient).marker_mem hy hmarker
    · have hne : y ≠ queued := by
        rintro rfl
        simp [hy'.type_cases.1] at htransient
      exact Delivered.present (by simpa [hne] using hy)
  | @compact pre post delta serverID _ hpos hpre ih =>
    refine ih.transfer htracked (fun _ h _ => h) (fun y hy ch hmarker => ?_) fun y hy _ => ?_
    · exact (Squeezed.refl.compact serverID hpos hpre).marker_mem hy hmarker
    · by_cases hch : eventMessageChannel y = eventMessageChannel delta
      · refine Delivered.resync (mem_append_right _ mem_cons_self) ?_
        simp [hch]
      · have hne : y ≠ delta := fun heq => hch (congrArg _ heq)
        refine Delivered.present ?_
        rcases mem_append.mp hy with hy | hy
        · exact mem_append_left _ hy
        · have hy := (mem_cons.mp hy).resolve_left hne
          exact mem_append_right _ (mem_cons_of_mem _ (mem_filter.mpr ⟨hy, by simpa⟩))

section

variable (h : Outcome resync outgoing priority event outgoing' priority' accepted)
include h

theorem Outcome.marker_mem (hx : x ∈ outgoing) (hmarker : isSyncMarker ch x = true) :
    x ∈ outgoing' := by
  cases h with
  | mediaFull | media | stale | absorbed | dropped => exact hx
  | @replaced pre post queued _ _ _ hqueued hqueue =>
    subst hqueue
    have hne : x ≠ queued := by
      rintro rfl
      simp [isSyncMarker_no_key hmarker] at hqueued
    rcases mem_append.mp hx with hx | hx
    · exact mem_append_left _ hx
    · have hx := (mem_cons.mp hx).resolve_left hne
      exact mem_append_right _ (mem_cons_of_mem _ hx)
  | compacted _ _ hsq | full _ _ hsq => exact hsq.marker_mem hx hmarker
  | appended _ _ hsq => exact mem_append_left _ (hsq.marker_mem hx hmarker)

theorem Outcome.mem_cases
    (hx : x ∈ outgoing') : x ∈ outgoing ∨ (accepted = true ∧ x = event) ∨ IsMarker x := by
  have hsqueezed : ∀ {queue}, Squeezed outgoing queue →
      ∀ y ∈ queue, y ∈ outgoing ∨ IsMarker y := fun hsq =>
    hsq.forall_mem (fun _ _ _ _ => Or.inr ⟨_, _, rfl⟩) fun y hy => Or.inl hy
  cases h with
  | mediaFull | media | stale | absorbed | dropped => exact Or.inl hx
  | replaced _ _ _ hqueue =>
    subst hqueue
    simp only [mem_append, mem_cons] at hx ⊢
    tauto
  | compacted _ _ hsq | full _ _ hsq => exact (hsqueezed hsq x hx).imp_right Or.inr
  | appended _ _ hsq =>
    rcases mem_append.mp hx with hx | hx
    · exact (hsqueezed hsq x hx).imp_right Or.inr
    · exact Or.inr (Or.inl ⟨rfl, mem_singleton.mp hx⟩)

theorem Outcome.delivered
    (hhistory : accepted = true → event ∈ history) (hx : x ∈ outgoing) (htracked : Tracked x) :
    Delivered history outgoing' x := by
  cases h with
  | mediaFull | media | stale | absorbed | dropped => exact Delivered.present hx
  | @replaced pre post queued _ _ hkey hqueued hqueue hstale =>
    subst hqueue
    by_cases hsame : x = queued
    · subst hsame
      obtain ⟨value, value', hvalue, hvalue', hid⟩ := htracked.same_message hqueued hkey
      refine Delivered.superseded hvalue hvalue' hid ?_ (hhistory rfl) (Delivered.present (by simp))
      simpa [isStale, hvalue, hvalue'] using hstale
    · refine Delivered.present ?_
      rcases mem_append.mp hx with hx | hx
      · exact mem_append_left _ hx
      · have hx := (mem_cons.mp hx).resolve_left hsame
        exact mem_append_right _ (mem_cons_of_mem _ hx)
  | compacted _ _ hsq | full _ _ hsq => exact hsq.delivered hx htracked
  | appended _ _ hsq =>
    refine (hsq.delivered hx htracked).transfer htracked (fun _ h _ => h) ?_ ?_
    · exact fun y hy _ _ => mem_append_left _ hy
    · exact fun y hy _ => Delivered.present (mem_append_left _ hy)

end

theorem Outcome.delivered_event
    (h : Outcome resync outgoing priority event outgoing' priority' true)
    (hhistory : ∀ x ∈ outgoing, x ∈ history) (htracked : Tracked event) :
    Delivered history outgoing' event := by
  cases h with
  | media hmedia => simp [htracked.type_cases.2] at hmedia
  | stale _ hkey hqueued hmem hstale =>
    obtain ⟨value, value', hvalue, hvalue', hid⟩ := htracked.same_message hkey hqueued
    refine Delivered.superseded hvalue hvalue' hid ?_ (hhistory _ hmem) (Delivered.present hmem)
    have hlt : value.revision < value'.revision := by simpa [isStale, hvalue, hvalue'] using hstale
    exact hlt.le
  | replaced | appended => exact Delivered.present (by simp)
  | absorbed _ _ hmem hmarker => exact Delivered.resync hmem hmarker
  | dropped htransient => simp [htracked.type_cases.1] at htransient
  | compacted _ _ _ hmem => exact Delivered.resync hmem (by simp)

end Lanes

/-! ## Runs -/

namespace Client

variable {c : Client} {op : ClientOp}
  {x : OutgoingEvent}

section

variable (hop : op.keepsPolicy = true)
include hop

theorem apply_marker_mem {ch : Int} (hx : x ∈ c.outgoing) (hmarker : isSyncMarker ch x = true) :
    x ∈ (c.pops op).toList ++ (c.apply op).outgoing := by
  cases c.laneStep hop with
  | kept _ _ hout | media _ _ _ _ hout => exact mem_append_right _ (hout ▸ hx)
  | entered _ _ _ _ houtcome => exact mem_append_right _ (houtcome.marker_mem hx hmarker)
  | normal event hpops _ hout => simpa [hpops, hout] using hx

theorem apply_delivered (hx : x ∈ c.outgoing) (htracked : Tracked x) :
    Delivered (c.outgoing ++ (c.accepts op).toList)
      ((c.pops op).toList ++ (c.apply op).outgoing) x := by
  cases c.laneStep hop with
  | kept _ _ hout | media _ _ _ _ hout => exact .present (mem_append_right _ (hout ▸ hx))
  | entered event accepted hpops haccepts houtcome =>
    rw [hpops]
    refine houtcome.delivered (fun haccepted => ?_) hx htracked
    simp [haccepts, haccepted]
  | normal event hpops _ hout => exact .present (by simpa [hpops, hout] using hx)

theorem apply_reactions_mem (hx : x ∈ (c.apply op).outgoing) (hdata : x.data.isReactions = true) :
    x ∈ c.outgoing ++ (c.accepts op).toList := by
  cases c.laneStep hop with
  | kept _ _ hout | media _ _ _ _ hout => exact mem_append_left _ (hout ▸ hx)
  | entered event accepted hpops haccepts houtcome =>
    rcases houtcome.mem_cases hx with hold | ⟨rfl, rfl⟩ | ⟨_, _, rfl⟩
    · exact mem_append_left _ hold
    · simp [haccepts]
    · cases hdata
  | normal event hpops _ hout => exact mem_append_left _ (by simp [hout, hx])

end

theorem run_marker_mem {ops : List ClientOp} (hops : ∀ op ∈ ops, op.keepsPolicy = true) {ch : Int}
    (hx : x ∈ c.outgoing) (hmarker : isSyncMarker ch x = true) :
    x ∈ c.popped ops ++ (c.run ops).outgoing := by
  induction ops generalizing c with
  | nil => exact hx
  | cons op ops ih =>
    simp only [popped, run_cons, append_assoc]
    rcases mem_append.mp (apply_marker_mem (hops op mem_cons_self) hx hmarker) with
      hnow | hlater
    · exact mem_append_left _ hnow
    · exact mem_append_right _
        (ih (fun op' hop' => hops op' (mem_cons_of_mem _ hop')) hlater)

theorem run_delivered {ops : List ClientOp} (hops : ∀ op ∈ ops, op.keepsPolicy = true)
    (hx : x ∈ c.outgoing) (htracked : Tracked x) :
    Delivered (c.outgoing ++ c.accepted ops) (c.popped ops ++ (c.run ops).outgoing) x := by
  induction ops generalizing c x with
  | nil => exact Delivered.present hx
  | cons op ops ih =>
    have hop := hops op mem_cons_self
    have hrest : ∀ op' ∈ ops, op'.keepsPolicy = true :=
      fun op' hop' => hops op' (mem_cons_of_mem _ hop')
    simp only [accepted, popped, run_cons, append_assoc]
    refine (apply_delivered hop hx htracked).transfer htracked (fun y hy _ => ?_)
      (fun y hy ch hmarker => ?_) fun y hy hy' => ?_
    · rw [← append_assoc]
      exact mem_append_left _ hy
    · rcases mem_append.mp hy with hy | hy
      · exact mem_append_left _ hy
      · exact mem_append_right _ (run_marker_mem hrest hy hmarker)
    · rcases mem_append.mp hy with hy | hy
      · exact Delivered.present (mem_append_left _ hy)
      · -- still queued: what the rest of the run owes, with a history seen from the start
        refine (ih hrest hy hy').transfer hy' (fun z hz hdata => ?_)
          (fun z hz _ _ => mem_append_right _ hz)
          fun z hz _ => Delivered.present (mem_append_right _ hz)
        rw [← append_assoc]
        rcases mem_append.mp hz with hz | hz
        · exact mem_append_left _ (apply_reactions_mem hop hz hdata)
        · exact mem_append_right _ hz

theorem filterEvent_delta {event : OutgoingEvent} (hdelta : 0 < eventMessageChannel event)
    (hreadable : canAccessChannel c.channelAccess (eventMessageChannel event) = true) :
    c.filterEvent event = (c, some event) := by
  refine c.filterEvent_of_readable ?_ ?_ (Or.inr (by rwa [channelID_of_eventMessageChannel hdelta]))
  all_goals
    obtain ⟨-, ⟨_, -, hdata⟩ | ⟨_, _, -, hdata⟩ | ⟨_, _, -, hdata⟩ | ⟨_, _, -, hdata⟩⟩ :=
      delta_cases hdelta <;> rw [hdata] <;> rfl

end Client

/-- **No chat event is lost silently.** Whatever the state of the connection, an accepted chat event
of a readable channel is owed to the client and stays owed: along every later run under the same
policy, the events popped since and those still queued contain the event, or a marker of its
channel, or a newer reaction count of its message that is itself owed. -/
theorem accepted_chat_event_delivered (c : Client) (event : OutgoingEvent) (ops : List ClientOp)
    (haccepted : (c.enqueue event).2 = true) (hdelta : 0 < eventMessageChannel event)
    (hreadable : canAccessChannel c.channelAccess (eventMessageChannel event) = true)
    (hops : ∀ op ∈ ops, op.keepsPolicy = true) :
    Delivered (c.outgoing ++ event :: (c.enqueue event).1.accepted ops)
      ((c.enqueue event).1.popped ops ++ ((c.enqueue event).1.run ops).outgoing) event := by
  have hfiltered := Client.filterEvent_delta hdelta hreadable
  have hevent : Tracked event := Or.inl hdelta
  obtain ⟨c', hc'⟩ : ∃ c', c.enqueue event = (c', true) := ⟨_, Prod.ext rfl haccepted⟩
  rw [hc']
  obtain ⟨-, ⟨-, hfalse, -⟩ | ⟨-, -, hnone, -⟩ | ⟨-, filtered, hsome, houtcome⟩⟩ :=
    Client.enqueue_cases hc'
  · cases hfalse
  · simp [hfiltered] at hnone
  · obtain rfl : event = filtered := by simpa [hfiltered] using hsome
    have hnow : Delivered (c.outgoing ++ [event]) c'.outgoing event :=
      houtcome.delivered_event (fun x hx => mem_append_left _ hx) hevent
    refine hnow.transfer hevent (fun x hx _ => ?_) (fun x hx ch hmarker => ?_) fun x hx hx' => ?_
    · rcases mem_append.mp hx with hx | hx
      · exact mem_append_left _ hx
      · exact mem_append_right _ (by simp_all)
    · exact Client.run_marker_mem hops hx hmarker
    · refine (Client.run_delivered hops hx hx').transfer hx' (fun y hy hdata => ?_)
        (fun y hy _ _ => hy) fun y hy _ => Delivered.present hy
      rcases mem_append.mp hy with hy | hy
      · rcases houtcome.mem_cases hy with hold | ⟨-, rfl⟩ | ⟨_, _, rfl⟩
        · exact mem_append_left _ hold
        · exact mem_append_right _ mem_cons_self
        · cases hdata
      · exact mem_append_right _ (mem_cons_of_mem _ hy)

/-- A message is accepted and popped. -/
theorem accepted_chat_event_delivered_popped :
    (newClient.enqueue (messageCreatedEvent 0 ⟨7, 1, false⟩)).2 = true ∧
      Delivered [messageCreatedEvent 0 ⟨7, 1, false⟩] [messageCreatedEvent 0 ⟨7, 1, false⟩]
        (messageCreatedEvent 0 ⟨7, 1, false⟩) :=
  ⟨rfl, accepted_chat_event_delivered newClient _ [.popOutgoing] rfl (by decide) rfl (by decide)⟩

theorem not_delivered_nil {history : List OutgoingEvent} {event : OutgoingEvent} :
    ¬ Delivered history [] event := by
  intro h
  induction h with
  | present hmem | resync hmem => cases hmem
  | superseded _ _ _ _ _ _ ih => exact ih

/-- The channel has to be readable: `enqueue` also returns true for a message that the policy hides
from this client, and then nothing is owed. -/
theorem hidden_chat_event_not_delivered :
    ¬ ∀ (c : Client) (event : OutgoingEvent) (ops : List ClientOp),
      (c.enqueue event).2 = true → 0 < eventMessageChannel event →
      (∀ op ∈ ops, op.keepsPolicy = true) →
      Delivered (c.outgoing ++ event :: (c.enqueue event).1.accepted ops)
        ((c.enqueue event).1.popped ops ++ ((c.enqueue event).1.run ops).outgoing) event := by
  intro h
  have hlost := h (newClient.replaceChannelAccess (some ∅))
    (messageCreatedEvent 0 ⟨7, 1, false⟩) [] (by decide) (by decide) (by decide)
  exact not_delivered_nil hlost

end Voxhold.Realtime
