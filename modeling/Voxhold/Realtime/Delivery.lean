/-
# Voxhold.Realtime.Delivery — critical events are delivered once and in order

"Permission changes, SDP and ICE are never silently dropped": critical events (no chat delta, not
replaceable, not transient) and media events are followed from acceptance to the socket.
-/

import Voxhold.Lib.Padded
import Voxhold.Realtime.Session

namespace Voxhold.Realtime

open Voxhold.Lib List

/-- Events of the normal lane that the queue may neither drop nor replace. -/
def critical (event : OutgoingEvent) : Bool :=
  !event.type.isMedia && !(0 < eventMessageChannel event : Bool) &&
    (replacementKey event).isNone && !event.type.isTransient

/-- The markers that a compaction inserts. -/
def IsMarker (event : OutgoingEvent) : Prop :=
  ∃ serverID channelID, event = syncMarker serverID channelID

/-- The operation is not a change of the channel policy. -/
def ClientOp.keepsPolicy : ClientOp → Bool
  | .replaceChannelAccess _ => false
  | _ => true

section Critical

variable {event : OutgoingEvent}

theorem not_critical_of_media (h : event.type.isMedia = true) : critical event = false := by
  simp [critical, h]

theorem not_critical_of_delta (h : 0 < eventMessageChannel event) : critical event = false := by
  simp [critical, h]

theorem not_critical_of_key {key : ReplacementKey} (h : replacementKey event = some key) :
    critical event = false := by
  simp [critical, h]

theorem not_critical_of_transient (h : event.type.isTransient = true) : critical event = false := by
  simp [critical, h]

end Critical

section Lanes

variable {queue queue' outgoing priority outgoing' priority' : List OutgoingEvent}
  {event : OutgoingEvent} {resync : Int → Bool} {accepted : Bool}

theorem filter_critical_filter_ne {channelID : Int} (hpos : 0 < channelID)
    (queue : List OutgoingEvent) :
    (queue.filter (eventMessageChannel · ≠ channelID)).filter critical = queue.filter critical := by
  rw [filter_filter]
  refine filter_congr fun x _ => ?_
  by_cases hx : eventMessageChannel x = channelID
  · have hdelta : critical x = false := not_critical_of_delta (hx ▸ hpos)
    simp [hdelta]
  · simp [hx]

theorem Squeezed.padded_critical (h : Squeezed queue queue') :
    Padded IsMarker (queue.filter critical) (queue'.filter critical) := by
  induction h with
  | refl => exact Padded.refl _
  | evict _ htransient ih =>
    simpa [filter_cons, not_critical_of_transient htransient] using ih
  | @compact pre post delta serverID _ hpos _ ih =>
    refine ih.trans ?_
    have hdelta : critical delta = false := not_critical_of_delta hpos
    have hmarker : critical (syncMarker serverID (eventMessageChannel delta)) = true := rfl
    simp only [filter_append, filter_cons, hdelta, hmarker,
      filter_critical_filter_ne hpos, Bool.false_eq_true, if_false, if_true]
    exact Padded.insert ⟨_, _, rfl⟩ _ _

section

variable (h : Outcome resync outgoing priority event outgoing' priority' accepted)
include h

theorem Outcome.padded_critical :
    Padded IsMarker ((outgoing ++ if accepted then [event] else []).filter critical)
      (outgoing'.filter critical) := by
  cases h with
  | mediaFull => simpa using Padded.refl _
  | media hmedia =>
    simpa [filter_cons, not_critical_of_media hmedia] using Padded.refl _
  | stale _ hkey =>
    simpa [filter_cons, not_critical_of_key hkey] using Padded.refl _
  | replaced _ hkey hqueued hqueue =>
    subst hqueue
    simpa [filter_cons, not_critical_of_key hkey, not_critical_of_key hqueued]
      using Padded.refl _
  | absorbed _ hpos =>
    simpa [filter_cons, not_critical_of_delta hpos] using Padded.refl _
  | dropped htransient =>
    simpa [filter_cons, not_critical_of_transient htransient] using Padded.refl _
  | compacted _ hpos hsq =>
    simpa [filter_cons, not_critical_of_delta hpos] using hsq.padded_critical
  | full _ _ hsq => simpa using hsq.padded_critical
  | appended _ _ hsq =>
    simp only [if_true, filter_append]
    exact hsq.padded_critical.append (Padded.refl _)

theorem Outcome.priority_eq :
    priority' = priority ++ (if accepted then [event] else []).filter (·.type.isMedia) := by
  cases h with
  | mediaFull | full => simp
  | media hmedia => simp [hmedia]
  | stale hnormal | replaced hnormal | absorbed hnormal | compacted hnormal | appended hnormal =>
    simp [hnormal]
  | dropped htransient =>
    have hnormal : event.type.isMedia = false := by
      cases htype : event.type <;> simp_all [EventType.isTransient, EventType.isMedia]
    simp [hnormal]

end

end Lanes

/-! ## Runs -/

namespace Client

variable {c : Client}
  {op : ClientOp}

/-- What an operation that keeps the policy does to the lanes. -/
inductive LaneStep (c : Client) (op : ClientOp) : Prop where
  | kept (hpops : c.pops op = none) (haccepts : c.accepts op = none)
      (hout : (c.apply op).outgoing = c.outgoing) (hprio : (c.apply op).priority = c.priority)
  | entered (event : OutgoingEvent) (accepted : Bool) (hpops : c.pops op = none)
      (haccepts : c.accepts op = if accepted then some event else none)
      (houtcome : Outcome c.canResync c.outgoing c.priority event (c.apply op).outgoing
        (c.apply op).priority accepted)
  | media (event : OutgoingEvent) (hpops : c.pops op = some event) (haccepts : c.accepts op = none)
      (hprio : c.priority = event :: (c.apply op).priority)
        (hout : (c.apply op).outgoing = c.outgoing)
  | normal (event : OutgoingEvent) (hpops : c.pops op = some event) (haccepts : c.accepts op = none)
      (hout : c.outgoing = event :: (c.apply op).outgoing)
        (hprio : (c.apply op).priority = c.priority)

theorem laneStep (c : Client) (hop : op.keepsPolicy = true) : c.LaneStep op := by
  cases op with
  | enqueue event =>
    obtain ⟨-, ⟨-, hfalse, hout, hprio⟩ | ⟨-, -, hnone, hout, hprio⟩ | ⟨-, filtered, hsome,
      houtcome⟩⟩ :=
      enqueue_cases (Prod.eta (c.enqueue event)).symm
    · exact .kept rfl (by simp [accepts, hfalse]) hout hprio
    · exact .kept rfl (by simp [accepts, hnone]) hout hprio
    · exact .entered filtered _ rfl (by simp [accepts, hsome]) houtcome
  | popOutgoing =>
    obtain ⟨-, ⟨hnone, hnil, hout, hprio⟩ | ⟨event, hsome, hprio, hout⟩ | ⟨event, hsome, hout,
      hprio⟩⟩ :=
      popOutgoing_cases (Prod.eta c.popOutgoing).symm
    · exact .kept hnone rfl (hout.trans hnil.symm) hprio
    · exact .media event hsome rfl hprio hout
    · exact .normal event hsome rfl hout hprio
  | replaceChannelAccess => cases hop
  | addSubscription | removeSubscription | enableMessageSync | enableMultipleStreams | close =>
    exact .kept rfl rfl rfl rfl

section

variable (h : c.WellFormed)
include h

theorem WellFormed.apply_critical (hop : op.keepsPolicy = true) :
    Padded IsMarker ((c.outgoing ++ (c.accepts op).toList).filter critical)
      (((c.pops op).toList ++ (c.apply op).outgoing).filter critical) := by
  cases c.laneStep hop with
  | kept hpops haccepts hout | normal event hpops haccepts hout =>
    simpa [hpops, haccepts, hout] using Padded.refl _
  | entered event accepted hpops haccepts houtcome =>
    have := houtcome.padded_critical
    cases accepted <;> simpa [hpops, haccepts] using this
  | media event hpops haccepts hprio hout =>
    have hmedia := h.priority_lane event (by simp [hprio])
    simpa [hpops, haccepts, hout, filter_cons, not_critical_of_media hmedia] using Padded.refl _

theorem WellFormed.apply_media (hop : op.keepsPolicy = true) :
    ((c.pops op).toList ++ (c.apply op).priority).filter (·.type.isMedia) =
      (c.priority ++ (c.accepts op).toList).filter (·.type.isMedia) := by
  cases c.laneStep hop with
  | kept hpops haccepts _ hprio | media event hpops haccepts hprio => simp [hpops, haccepts, hprio]
  | entered event accepted hpops haccepts houtcome =>
    rw [houtcome.priority_eq, hpops, haccepts]
    cases accepted <;> simp
  | normal event hpops haccepts hout hprio =>
    have hnormal := h.outgoing_lane event (by simp [hout])
    simp [hpops, haccepts, hprio, hnormal]

theorem WellFormed.run_critical {ops : List ClientOp} (hops : ∀ op ∈ ops, op.keepsPolicy = true) :
    Padded IsMarker ((c.outgoing ++ c.accepted ops).filter critical)
      ((c.popped ops ++ (c.run ops).outgoing).filter critical) := by
  induction ops generalizing c with
  | nil => simpa [accepted, popped] using Padded.refl _
  | cons op ops ih =>
    have hstep := h.apply_critical (hops op mem_cons_self)
    have hrest := ih (h.apply op) fun op' hop' => hops op' (mem_cons_of_mem _ hop')
    simp only [accepted, popped, run_cons, ← append_assoc, filter_append] at hstep hrest ⊢
    refine (hstep.append (Padded.refl _)).trans ?_
    simp only [append_assoc]
    exact (Padded.refl _).append hrest

theorem WellFormed.run_media {ops : List ClientOp} (hops : ∀ op ∈ ops, op.keepsPolicy = true) :
    (c.popped ops ++ (c.run ops).priority).filter (·.type.isMedia) =
      (c.priority ++ c.accepted ops).filter (·.type.isMedia) := by
  induction ops generalizing c with
  | nil => simp [accepted, popped]
  | cons op ops ih =>
    have hstep := h.apply_media (hops op mem_cons_self)
    have hrest := ih (h.apply op) fun op' hop' => hops op' (mem_cons_of_mem _ hop')
    simp only [accepted, popped, run_cons, filter_append, append_assoc] at hstep hrest ⊢
    rw [hrest, ← append_assoc, hstep, append_assoc]

end

end Client

/-- **Critical and media events: exactly once, in order.** From any state that a connection reaches,
under a fixed policy: the critical events popped and still queued are the critical events queued at
the start and accepted since, in that order, with nothing but sync markers in between. The media
lane hands out its accepted events in order, and both lanes stay within capacity. -/
theorem accepted_events_exactly_once (setup ops : List ClientOp)
    (hops : ∀ op ∈ ops, op.keepsPolicy = true) : Padded IsMarker
        (((newClient.run setup).outgoing ++ (newClient.run setup).accepted ops).filter critical)
        (((newClient.run setup).popped ops ++ ((newClient.run setup).run ops).outgoing).filter
          critical) ∧
      ((newClient.run setup).popped ops ++ ((newClient.run setup).run ops).priority).filter
          (·.type.isMedia) =
        ((newClient.run setup).priority ++ (newClient.run setup).accepted ops).filter
          (·.type.isMedia) ∧
      ((newClient.run setup).run ops).outgoing.length ≤ 128 ∧
      ((newClient.run setup).run ops).priority.length ≤ 128 := by
  have hwf := Client.WellFormed.newClient.run setup
  have hfinal := hwf.run ops
  exact ⟨hwf.run_critical hops, hwf.run_media hops, hfinal.outgoing_bounded,
    hfinal.priority_bounded⟩

/-- `channel.deleted`, as it goes to every member of a server. -/
def channelDeletedEvent (channelID : Int) : OutgoingEvent where
  encoding := none
  requestID := ""
  type := .channelDeleted
  data := .channelDeleted channelID
  wellTyped := ⟨nofun, nofun⟩

/-- A readable deletion, a media event and a pop. -/
theorem accepted_events_exactly_once_deleted :
    (∀ op ∈ [ClientOp.enqueue (channelDeletedEvent 5), .popOutgoing], op.keepsPolicy = true) ∧
      Padded IsMarker ((newClient.outgoing ++ newClient.accepted
          [.enqueue (channelDeletedEvent 5), .popOutgoing]).filter critical)
        ((newClient.popped [.enqueue (channelDeletedEvent 5), .popOutgoing] ++
          (newClient.run [.enqueue (channelDeletedEvent 5), .popOutgoing]).outgoing).filter
            critical) :=
  ⟨by decide, (accepted_events_exactly_once [] _ (by decide)).1⟩

/-- The same is NOT true of the events that `enqueue` reports as sent: it also says so of an event
that the policy hides from this client, and that event never comes out. -/
theorem reported_events_not_all_delivered :
    ¬ ∀ (policy : Option (Finset Int)) (ops : List ClientOp), (∀ op ∈ ops, op.keepsPolicy = true) →
      Padded IsMarker (((newClient.replaceChannelAccess policy).reported ops).filter critical)
        (((newClient.replaceChannelAccess policy).popped ops ++
          ((newClient.replaceChannelAccess policy).run ops).outgoing).filter critical) := by
  intro h
  have hlost : Padded IsMarker [channelDeletedEvent 5] [] :=
    h (some ∅) [.enqueue (channelDeletedEvent 5)] (by decide)
  cases hlost

end Voxhold.Realtime
