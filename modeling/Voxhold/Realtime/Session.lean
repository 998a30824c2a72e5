/-
# Voxhold.Realtime.Session — whole runs of one connection

A run of a connection is a list of operations, each atomic under `queueMu`: `enqueue`,
`PopOutgoing`, `replaceChannelAccess` and the subscription and capability setters.
-/

import Mathlib.Data.List.Basic
import Voxhold.Realtime.Outgoing

namespace Voxhold.Realtime

open List

/-! ## Operations and runs -/

inductive ClientOp where
  | enqueue (event : OutgoingEvent)
  | popOutgoing
  | replaceChannelAccess (ids : Option (Finset Int))
  | addSubscription (serverID channelID : Int)
  | removeSubscription (channelID : Int)
  | enableMessageSync
  | enableMultipleStreams
  | close

namespace Client

def apply (c : Client) : ClientOp → Client
  | .enqueue event => (c.enqueue event).1
  | .popOutgoing => c.popOutgoing.1
  | .replaceChannelAccess ids => c.replaceChannelAccess ids
  | .addSubscription serverID channelID =>
    { c with subscriptions := Function.update c.subscriptions channelID (some serverID) }
  | .removeSubscription channelID =>
    { c with subscriptions := Function.update c.subscriptions channelID none }
  | .enableMessageSync => { c with messageSync := true }
  | .enableMultipleStreams => { c with multipleStreams := true }
  | .close => { c with done := true }

/-- The event an operation accepts into the queue: `enqueue` returned true and no filter rejected
the event, which is recorded as the filters let it through. -/
def accepts (c : Client) : ClientOp → Option OutgoingEvent
  | .enqueue event => if (c.enqueue event).2 then (c.filterEvent event).2 else none
  | _ => none

/-- The event an `enqueue` reports as sent, filtered or not. -/
def reports (c : Client) : ClientOp → Option OutgoingEvent
  | .enqueue event => if (c.enqueue event).2 then some event else none
  | _ => none

/-- The event an operation hands to the write loop. -/
def pops (c : Client) : ClientOp → Option OutgoingEvent
  | .popOutgoing => c.popOutgoing.2
  | _ => none

def run (c : Client) (ops : List ClientOp) : Client := ops.foldl apply c

def accepted : Client → List ClientOp → List OutgoingEvent
  | _, [] => []
  | c, op :: ops => (c.accepts op).toList ++ accepted (c.apply op) ops

/-- The events reported as sent along a run, in order. -/
def reported : Client → List ClientOp → List OutgoingEvent
  | _, [] => []
  | c, op :: ops => (c.reports op).toList ++ reported (c.apply op) ops

def popped : Client → List ClientOp → List OutgoingEvent
  | _, [] => []
  | c, op :: ops => (c.pops op).toList ++ popped (c.apply op) ops

@[simp] theorem run_nil (c : Client) : c.run [] = c := rfl

@[simp] theorem run_cons (c : Client) (op : ClientOp) (ops : List ClientOp) :
    c.run (op :: ops) = (c.apply op).run ops := rfl

theorem popped_append (c : Client) (ops later : List ClientOp) :
    c.popped (ops ++ later) = c.popped ops ++ (c.run ops).popped later := by
  induction ops generalizing c with
  | nil => rfl
  | cons op ops ih => simp [popped, ih]

theorem reported_append (c : Client) (ops later : List ClientOp) :
    c.reported (ops ++ later) = c.reported ops ++ (c.run ops).reported later := by
  induction ops generalizing c with
  | nil => rfl
  | cons op ops ih => simp [reported, ih]

end Client

/-! ## Lane invariants -/

section Lanes

variable {P : OutgoingEvent → Prop} {queue queue' outgoing priority outgoing' priority' :
  List OutgoingEvent} {event : OutgoingEvent} {resync : Int → Bool} {accepted : Bool}

theorem Squeezed.forall_mem (h : Squeezed queue queue')
    (hmarker : ∀ x serverID, P x → 0 < eventMessageChannel x →
      P (syncMarker serverID (eventMessageChannel x)))
    (hall : ∀ x ∈ queue, P x) : ∀ x ∈ queue', P x := by
  induction h with
  | refl => exact hall
  | @evict pre post queued _ _ ih =>
    intro x hx
    refine ih x ?_
    rcases mem_append.mp hx with hx | hx <;> simp [hx]
  | @compact pre post delta serverID _ hpos _ ih =>
    intro x hx
    rcases mem_append.mp hx with hx | hx
    · exact ih x (mem_append_left _ hx)
    · rcases mem_cons.mp hx with rfl | hx
      · exact hmarker delta serverID (ih delta (by simp)) hpos
      · exact ih x (by simp [(mem_filter.mp hx).1])

section

variable (h : Outcome resync outgoing priority event outgoing' priority' accepted)
include h

theorem Outcome.forall_mem_outgoing (hmarker : ∀ x serverID, P x → 0 < eventMessageChannel x →
      P (syncMarker serverID (eventMessageChannel x)))
    (hevent : event.type.isMedia = false → P event) (hall : ∀ x ∈ outgoing, P x) :
    ∀ x ∈ outgoing', P x := by
  cases h with
  | mediaFull | media | stale | absorbed | dropped => exact hall
  | replaced hnormal _ _ hqueue =>
    intro x hx
    subst hqueue
    rcases mem_append.mp hx with hx | hx
    · exact hall x (mem_append_left _ hx)
    · rcases mem_cons.mp hx with rfl | hx
      · exact hevent hnormal
      · exact hall x (by simp [hx])
  | compacted _ _ hsq | full _ _ hsq => exact hsq.forall_mem hmarker hall
  | appended hnormal _ hsq =>
    intro x hx
    rcases mem_append.mp hx with hx | hx
    · exact hsq.forall_mem hmarker hall x hx
    · obtain rfl := mem_singleton.mp hx
      exact hevent hnormal

theorem Outcome.forall_mem_priority
    (hevent : event.type.isMedia = true → P event) (hall : ∀ x ∈ priority, P x) :
    ∀ x ∈ priority', P x := by
  cases h with
  | media hmedia =>
    intro x hx
    rcases mem_append.mp hx with hx | hx
    · exact hall x hx
    · obtain rfl := mem_singleton.mp hx
      exact hevent hmedia
  | _ => exact hall

theorem Outcome.outgoing_length_le
    (hout : outgoing.length ≤ outgoingBufferSize) : outgoing'.length ≤ outgoingBufferSize := by
  cases h with
  | mediaFull | media | stale | absorbed | dropped => exact hout
  | replaced _ _ _ hqueue =>
    subst hqueue
    simpa using hout
  | compacted _ _ hsq | full _ _ hsq => exact hsq.length_le.trans hout
  | appended _ _ hsq hfree =>
    have := hsq.length_le
    simp only [length_append, length_singleton]
    omega

theorem Outcome.priority_length_le
    (hprio : priority.length ≤ outgoingBufferSize) : priority'.length ≤ outgoingBufferSize := by
  cases h with
  | media _ hfree =>
    simp only [length_append, length_singleton]
    omega
  | _ => exact hprio

end

end Lanes

/-! ## What the filters admit -/

theorem Client.filterEvent_eq_some {c : Client} {event filtered : OutgoingEvent}
    (h : (c.filterEvent event).2 = some filtered) : Readable c.channelAccess filtered ∧
      (event.data.isChannelSnapshot = false → filtered = event) ∧
      filtered.data.isChannelSnapshot = event.data.isChannelSnapshot := by
  unfold Client.filterEvent at h
  split at h
  · cases h
  · next passed hpassed =>
    have hreadable := readable_of_filterChannelEvent hpassed
    obtain ⟨-, rfl⟩ := filterChannelEvent_eq_some.mp hpassed
    cases hlegacy : filterLegacyStreamEvent c (event.restrict c.channelAccess) with
    | mk c₁ result =>
    rw [hlegacy] at h
    obtain rfl : result = some filtered := h
    rcases (filterLegacyStreamEvent_cases hlegacy).2 with
      hnone | hsome | ⟨streams, kept, hsync, hdata, hkept, hsome⟩
    · cases hnone
    · cases hsome
      exact ⟨hreadable, fun hsnap => OutgoingEvent.restrict_eq_self hsnap,
        EventData.isChannelSnapshot_restrict _⟩
    · cases hsome
      have hsnap : event.data.isChannelSnapshot = true := by
        rw [← EventData.isChannelSnapshot_restrict]
        exact congrArg EventData.isChannelSnapshot hdata
      exact ⟨hreadable.withStreams hdata hkept hsync, by simp [hsnap], hsnap.symm⟩

theorem channelID_of_eventMessageChannel {event : OutgoingEvent}
    (h : 0 < eventMessageChannel event) : event.data.channelID = eventMessageChannel event := by
  unfold eventMessageChannel at h ⊢
  split at h
  · cases h
  · split at h <;> simp_all [EventData.channelID]

theorem Readable.syncMarker {channelAccess : Option (Finset Int)} {x : OutgoingEvent}
    (h : Readable channelAccess x) (serverID : Int) (hpos : 0 < eventMessageChannel x) :
    Readable channelAccess (syncMarker serverID (eventMessageChannel x)) := by
  obtain ⟨hid, -, -⟩ := readable_iff.mp h
  rw [channelID_of_eventMessageChannel hpos] at hid
  exact readable_iff.mpr ⟨hid, nofun, rfl⟩

/-! ## The invariant-carrying connection -/

/-- What the operations keep true of a connection. -/
structure Client.WellFormed (c : Client) : Prop where
  outgoing_bounded : c.outgoing.length ≤ outgoingBufferSize
  priority_bounded : c.priority.length ≤ outgoingBufferSize
  outgoing_lane : ∀ x ∈ c.outgoing, x.type.isMedia = false
  priority_lane : ∀ x ∈ c.priority, x.type.isMedia = true
  outgoing_readable : ∀ x ∈ c.outgoing, Readable c.channelAccess x
  priority_readable : ∀ x ∈ c.priority, Readable c.channelAccess x

namespace Client.WellFormed

variable {c c' : Client}

theorem newClient : newClient.WellFormed where
  outgoing_bounded := Nat.zero_le _
  priority_bounded := Nat.zero_le _
  outgoing_lane := by simp [Realtime.newClient]
  priority_lane := by simp [Realtime.newClient]
  outgoing_readable := by simp [Realtime.newClient]
  priority_readable := by simp [Realtime.newClient]

section

variable (h : c.WellFormed)
include h

theorem of_lanes (hout : c'.outgoing = c.outgoing)
    (hprio : c'.priority = c.priority) (hpolicy : c'.channelAccess = c.channelAccess) :
    c'.WellFormed := by
  obtain ⟨h₁, h₂, h₃, h₄, h₅, h₆⟩ := h
  constructor <;> simp only [hout, hprio, hpolicy] <;> assumption

theorem enqueue (event : OutgoingEvent) : (c.enqueue event).1.WellFormed := by
  cases henqueue : c.enqueue event with
  | mk c' accepted =>
  obtain ⟨hsame, ⟨-, -, hout, hprio⟩ | ⟨-, -, -, hout, hprio⟩ | ⟨-, filtered, hfiltered,
    houtcome⟩⟩ :=
    Client.enqueue_cases henqueue
  · exact h.of_lanes hout hprio hsame.channelAccess
  · exact h.of_lanes hout hprio hsame.channelAccess
  · obtain ⟨hreadable, -, -⟩ := Client.filterEvent_eq_some hfiltered
    refine ⟨houtcome.outgoing_length_le h.outgoing_bounded,
      houtcome.priority_length_le h.priority_bounded, ?_, ?_, ?_, ?_⟩
    · exact houtcome.forall_mem_outgoing (fun _ _ _ _ => rfl) id h.outgoing_lane
    · exact houtcome.forall_mem_priority id h.priority_lane
    · rw [hsame.channelAccess]
      exact houtcome.forall_mem_outgoing (fun x serverID hx hpos => hx.syncMarker serverID hpos)
        (fun _ => hreadable) h.outgoing_readable
    · rw [hsame.channelAccess]
      exact houtcome.forall_mem_priority (fun _ => hreadable) h.priority_readable

theorem popOutgoing : c.popOutgoing.1.WellFormed := by
  cases hpop : c.popOutgoing with
  | mk c' popped =>
  obtain ⟨h₁, h₂, h₃, h₄, h₅, h₆⟩ := h
  obtain ⟨hsame, ⟨-, hnil, hout, hprio⟩ | ⟨event, -, hcons, hout⟩ | ⟨event, -, hcons, hprio⟩⟩ :=
    Client.popOutgoing_cases hpop
  · constructor <;> simp_all [hsame.channelAccess]
  · rw [hcons] at h₂ h₄ h₆
    simp only [length_cons, forall_mem_cons] at h₂ h₄ h₆
    constructor <;> simp only [hout, hsame.channelAccess]
    exacts [h₁, by omega, h₃, h₄.2, h₅, h₆.2]
  · rw [hcons] at h₁ h₃ h₅
    simp only [length_cons, forall_mem_cons] at h₁ h₃ h₅
    constructor <;> simp only [hprio, hsame.channelAccess]
    exacts [by omega, h₂, h₃.2, h₄, h₅.2, h₆]

theorem replaceChannelAccess (ids : Option (Finset Int)) :
    (c.replaceChannelAccess ids).WellFormed where
  outgoing_bounded := (length_filterMap_le _ _).trans h.outgoing_bounded
  priority_bounded := (length_filterMap_le _ _).trans h.priority_bounded
  outgoing_lane x hx := by
    obtain ⟨y, hy, hfilter⟩ := mem_filterMap.mp hx
    obtain ⟨-, rfl⟩ := filterChannelEvent_eq_some.mp hfilter
    exact h.outgoing_lane y hy
  priority_lane x hx := by
    obtain ⟨y, hy, hfilter⟩ := mem_filterMap.mp hx
    obtain ⟨-, rfl⟩ := filterChannelEvent_eq_some.mp hfilter
    exact h.priority_lane y hy
  outgoing_readable x hx := by
    obtain ⟨y, -, hfilter⟩ := mem_filterMap.mp hx
    exact readable_of_filterChannelEvent hfilter
  priority_readable x hx := by
    obtain ⟨y, -, hfilter⟩ := mem_filterMap.mp hx
    exact readable_of_filterChannelEvent hfilter

theorem apply (op : ClientOp) : (c.apply op).WellFormed := by
  cases op with
  | enqueue event => exact h.enqueue event
  | popOutgoing => exact h.popOutgoing
  | replaceChannelAccess ids => exact h.replaceChannelAccess ids
  | addSubscription | removeSubscription | enableMessageSync | enableMultipleStreams | close =>
    exact h.of_lanes rfl rfl rfl

end

end Client.WellFormed

/-- A connection in a well-formed state. -/
abbrev Outbox := { c : Client // c.WellFormed }

namespace Outbox

/-- A connection just accepted. -/
def new : Outbox := ⟨newClient, Client.WellFormed.newClient⟩

/-- An operation, from a well-formed state to a well-formed state. -/
def apply (o : Outbox) (op : ClientOp) : Outbox := ⟨o.1.apply op, o.2.apply op⟩

def run (o : Outbox) (ops : List ClientOp) : Outbox := ops.foldl apply o

theorem run_val (o : Outbox) (ops : List ClientOp) : (o.run ops).1 = o.1.run ops := by
  induction ops generalizing o with
  | nil => rfl
  | cons op ops ih => exact ih (o.apply op)

end Outbox

theorem Client.WellFormed.run {c : Client} (h : c.WellFormed) (ops : List ClientOp) :
    (c.run ops).WellFormed :=
  Outbox.run_val ⟨c, h⟩ ops ▸ (Outbox.run ⟨c, h⟩ ops).2

end Voxhold.Realtime
