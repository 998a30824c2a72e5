/-
# Voxhold.Realtime.PresenceView — what coalescing does to a client's presence map

A `presence.snapshot` sets the online users of each server it lists, a `presence.updated` sets one
user. A newer update replaces an older one IN ITS SLOT, which is harmless unless a snapshot between
them speaks about the same user.
-/

import Voxhold.Realtime.Session

namespace Voxhold.Realtime

variable {queue : List OutgoingEvent}

/-! ## The client's map -/

/-- The presence map of a client: server, user, status. -/
abbrev PresenceMap := Int → Int → PresenceStatus

/-- An entry of a snapshot sets the online users of its server. -/
def PresenceMap.setServer (m : PresenceMap) (entry : ServerPresenceSnapshotData) : PresenceMap :=
  fun s u =>
    if s = entry.serverID then
      if u ∈ entry.onlineUserIDs then .online else .offline
    else m s u

/-- The events a client understands as presence. -/
inductive PresenceChange where
  | snapshot (servers : List ServerPresenceSnapshotData)
  | updated (serverID userID : Int) (status : PresenceStatus)
  deriving DecidableEq, Repr

def EventData.isPresence : EventData → Bool
  | .presenceSnapshot _ | .presenceUpdated _ _ _ => true
  | _ => false

/-- A client reads the payload by the event type. -/
def presenceChange (event : OutgoingEvent) : Option PresenceChange :=
  match event.type, event.data with
  | .presenceSnapshot, .presenceSnapshot servers => some (.snapshot servers)
  | .presenceUpdated, .presenceUpdated serverID userID status =>
    some (.updated serverID userID status)
  | _, _ => none

def applyPresence (m : PresenceMap) (event : OutgoingEvent) : PresenceMap :=
  match presenceChange event with
  | some (.snapshot servers) => servers.foldl PresenceMap.setServer m
  | some (.updated serverID userID status) =>
    fun s u => if s = serverID ∧ u = userID then status else m s u
  | none => m

def view (m : PresenceMap) (events : List OutgoingEvent) : PresenceMap :=
  events.foldl applyPresence m

/-! ## What an event says about one user -/

/-- What a snapshot entry, after the earlier ones, says about a user. -/
def entryVerdict (s u : Int) (acc : Option PresenceStatus) (entry : ServerPresenceSnapshotData) :
    Option PresenceStatus :=
  if s = entry.serverID then
    some (if u ∈ entry.onlineUserIDs then .online else .offline)
  else acc

/-- What an event says about a user, if anything. -/
def verdict (s u : Int) (event : OutgoingEvent) : Option PresenceStatus :=
  match presenceChange event with
  | some (.snapshot servers) => servers.foldl (entryVerdict s u) none
  | some (.updated serverID userID status) =>
    if s = serverID ∧ u = userID then some status else none
  | none => none

/-- What the last event that speaks about a user says. -/
def lastVerdict (s u : Int) : List OutgoingEvent → Option PresenceStatus
  | [] => none
  | event :: events => (lastVerdict s u events).or (verdict s u event)

theorem foldl_setServer (servers : List ServerPresenceSnapshotData) {m : PresenceMap} {s u : Int}
    {acc : Option PresenceStatus} {status : PresenceStatus} (h : acc.getD status = m s u) :
    (servers.foldl PresenceMap.setServer m) s u =
      (servers.foldl (entryVerdict s u) acc).getD status := by
  induction servers generalizing m acc with
  | nil => exact h.symm
  | cons entry servers ih =>
    refine ih ?_
    unfold entryVerdict PresenceMap.setServer
    split
    · rfl
    · exact h

theorem applyPresence_apply (m : PresenceMap) (event : OutgoingEvent) (s u : Int) :
    applyPresence m event s u = (verdict s u event).getD (m s u) := by
  unfold applyPresence verdict
  cases presenceChange event with
  | none => rfl
  | some change =>
    cases change with
    | snapshot servers => exact foldl_setServer servers rfl
    | updated serverID userID status =>
      simp only
      split <;> rfl

theorem view_apply (m : PresenceMap) (events : List OutgoingEvent) (s u : Int) :
    view m events s u = (lastVerdict s u events).getD (m s u) := by
  induction events generalizing m with
  | nil => rfl
  | cons event events ih =>
    change view (applyPresence m event) events s u = _
    rw [ih, applyPresence_apply, lastVerdict]
    cases lastVerdict s u events <;> rfl

theorem lastVerdict_append (s u : Int) (events later : List OutgoingEvent) :
    lastVerdict s u (events ++ later) = (lastVerdict s u later).or (lastVerdict s u events) := by
  induction events with
  | nil => simp [lastVerdict]
  | cons event events ih => simp [lastVerdict, ih, Option.or_assoc]

theorem eq_of_getD_eq {a b : Option PresenceStatus} (h : ∀ status, a.getD status = b.getD status) :
    a = b := by
  have honline := h .online
  have hoffline := h .offline
  cases a with
  | none =>
    cases b with
    | none => rfl
    | some status => exact absurd (honline.trans hoffline.symm) (by decide)
  | some status =>
    cases b with
    | none => exact absurd (honline.symm.trans hoffline) (by decide)
    | some status' => exact congrArg some honline

theorem view_eq_iff (events events' : List OutgoingEvent) : (∀ m, view m events = view m events') ↔
      ∀ s u, lastVerdict s u events = lastVerdict s u events' := by
  constructor
  · intro h s u
    refine eq_of_getD_eq fun status => ?_
    have := congrFun (congrFun (h fun _ _ => status) s) u
    rwa [view_apply, view_apply] at this
  · intro h m
    funext s u
    rw [view_apply, view_apply, h s u]

/-! ## Events that say nothing -/

section Inert

variable {event x : OutgoingEvent} {queue queue' pre post : List OutgoingEvent} {s u : Int}

theorem verdict_of_inert (h : presenceChange event = none) : verdict s u event = none := by
  simp [verdict, h]

theorem inert_of_type (hsnapshot : event.type ≠ .presenceSnapshot)
    (hupdated : event.type ≠ .presenceUpdated) : presenceChange event = none := by
  unfold presenceChange
  split <;> simp_all

theorem inert_of_transient (h : event.type.isTransient = true) : presenceChange event = none := by
  apply inert_of_type <;> intro htype <;> simp [htype, EventType.isTransient] at h

theorem inert_of_media (h : event.type.isMedia = true) : presenceChange event = none := by
  apply inert_of_type <;> intro htype <;> simp [htype, EventType.isMedia] at h

theorem inert_of_delta (h : 0 < eventMessageChannel event) : presenceChange event = none := by
  apply inert_of_type <;> intro htype <;> simp [eventMessageChannel, htype] at h

theorem inert_of_data (h : event.data.isPresence = false) : presenceChange event = none := by
  unfold presenceChange
  split
  · next hdata => simp [hdata, EventData.isPresence] at h
  · next hdata => simp [hdata, EventData.isPresence] at h
  · rfl

theorem lastVerdict_remove (h : verdict s u x = none) :
    lastVerdict s u (pre ++ x :: post) = lastVerdict s u (pre ++ post) := by
  simp [lastVerdict_append, lastVerdict, h]

theorem lastVerdict_filter {ch : Int} (hpos : 0 < ch) (queue : List OutgoingEvent) :
    lastVerdict s u (queue.filter (eventMessageChannel · ≠ ch)) = lastVerdict s u queue := by
  induction queue with
  | nil => rfl
  | cons x queue ih =>
    by_cases hx : eventMessageChannel x = ch
    · have hinert : verdict s u x = none := verdict_of_inert (inert_of_delta (hx ▸ hpos))
      simp [hx, lastVerdict, hinert, ← ih]
    · simp [hx, lastVerdict, ← ih]

theorem Squeezed.lastVerdict_eq (h : Squeezed queue queue') :
    lastVerdict s u queue' = lastVerdict s u queue := by
  induction h with
  | refl => rfl
  | evict _ htransient ih =>
    rw [← ih, lastVerdict_remove (verdict_of_inert (inert_of_transient htransient))]
  | compact serverID _ hpos _ ih =>
    rw [← ih, lastVerdict_remove (verdict_of_inert (inert_of_delta hpos)),
      lastVerdict_remove rfl, lastVerdict_append, lastVerdict_append, lastVerdict_filter hpos]

theorem presenceChange_of_key {key : ReplacementKey} (h : replacementKey event = some key) :
    (∃ serverID userID status, key = .presence serverID userID ∧
        presenceChange event = some (.updated serverID userID status)) ∨
      presenceChange event = none ∧ ∀ serverID userID, key ≠ .presence serverID userID := by
  unfold replacementKey at h
  split at h
  · cases h
  · split at h
    · next htype _ =>
      cases h
      exact Or.inr ⟨inert_of_type (by simp [htype]) (by simp [htype]), nofun⟩
    · next htype _ =>
      cases h
      exact Or.inr ⟨inert_of_type (by simp [htype]) (by simp [htype]), nofun⟩
    · split at h
      · next hdata =>
        cases h
        exact Or.inr ⟨inert_of_data (by rw [hdata]; rfl), nofun⟩
      · next serverID userID status hdata =>
        obtain ⟨htype, hkey⟩ := Option.ite_none_right_eq_some.mp h
        cases hkey
        exact Or.inl ⟨serverID, userID, status, rfl, by simp [presenceChange, htype, hdata]⟩
      · next hdata =>
        obtain ⟨-, hkey⟩ := Option.ite_none_right_eq_some.mp h
        cases hkey
        exact Or.inr ⟨inert_of_data (by rw [hdata]; rfl), nofun⟩
      · next hdata =>
        cases h
        exact Or.inr ⟨inert_of_data (by rw [hdata]; rfl), nofun⟩
      · next hdata =>
        obtain ⟨-, hkey⟩ := Option.ite_none_right_eq_some.mp h
        cases hkey
        exact Or.inr ⟨inert_of_data (by rw [hdata]; rfl), nofun⟩
      · cases h

end Inert

/-! ## When a replacement is safe -/

/-- The part of a lane behind the first event with a key. -/
def behind (key : ReplacementKey) : List OutgoingEvent → Option (List OutgoingEvent)
  | [] => none
  | queued :: rest => if replacementKey queued = some key then some rest else behind key rest

/-- The new event replaces no older update, or nothing queued behind that update says otherwise
about its user. -/
def replacesSafely (queue : List OutgoingEvent) (event : OutgoingEvent) : Bool :=
  match replacementKey event, presenceChange event with
  | some key, some (.updated serverID userID status) =>
    (behind key queue).all fun post => (lastVerdict serverID userID post).all (· = status)
  | _, _ => true

theorem behind_append {key : ReplacementKey} {pre post : List OutgoingEvent}
    {queued : OutgoingEvent} (hqueued : replacementKey queued = some key)
    (hpre : ∀ x ∈ pre, replacementKey x ≠ some key) :
    behind key (pre ++ queued :: post) = some post := by
  induction pre with
  | nil => simp [behind, hqueued]
  | cons x pre ih =>
    obtain ⟨hx, hpre⟩ := List.forall_mem_cons.mp hpre
    simp [behind, hx, ih hpre]

theorem behind_eq_none {key : ReplacementKey}
    (h : ∀ x ∈ queue, replacementKey x ≠ some key) : behind key queue = none := by
  induction queue with
  | nil => rfl
  | cons x queue ih =>
    obtain ⟨hx, hqueue⟩ := List.forall_mem_cons.mp h
    simp [behind, hx, ih hqueue]

theorem replacesSafely_of_inert {event : OutgoingEvent}
    (h : presenceChange event = none) : replacesSafely queue event = true := by
  unfold replacesSafely
  split
  · next hchange => simp [h] at hchange
  · rfl

theorem replacesSafely_of_fresh {event : OutgoingEvent}
    (h : Fresh queue event) : replacesSafely queue event = true := by
  unfold replacesSafely
  split
  · next hkey _ => simp [behind_eq_none (h _ hkey)]
  · rfl

/-- Two lists agree on the last word about everybody. -/
def SameWord (events events' : List OutgoingEvent) : Prop :=
  ∀ s u, lastVerdict s u events = lastVerdict s u events'

/-- Two lists contradict each other about somebody. -/
def Contradict (events events' : List OutgoingEvent) : Prop :=
  ∃ s u a b, a ≠ b ∧ lastVerdict s u events = some a ∧ lastVerdict s u events' = some b

section Step

variable {event queued : OutgoingEvent} {pre post outgoing priority outgoing' priority' :
  List OutgoingEvent} {resync : Int → Bool} {accepted : Bool}

theorem SameWord.append_inert (h : SameWord outgoing' outgoing)
    (hevent : presenceChange event = none) : SameWord outgoing' (outgoing ++ [event]) := by
  intro s u
  rw [h s u, lastVerdict_append]
  simp [lastVerdict, verdict_of_inert hevent]

theorem replaced_cases {serverID userID : Int} {status status' : PresenceStatus}
    (hevent : presenceChange event = some (.updated serverID userID status))
    (hqueued : presenceChange queued = some (.updated serverID userID status')) :
    (lastVerdict serverID userID post).all (· = status) = true ∧
        SameWord (pre ++ event :: post) (pre ++ queued :: post ++ [event]) ∨
      (lastVerdict serverID userID post).all (· = status) = false ∧
        Contradict (pre ++ event :: post) (pre ++ queued :: post ++ [event]) := by
  have hevent' : ∀ s u, verdict s u event =
      if s = serverID ∧ u = userID then some status else none := by
    intro s u
    simp [verdict, hevent]
  have hqueued' : ∀ s u, verdict s u queued =
      if s = serverID ∧ u = userID then some status' else none := by
    intro s u
    simp [verdict, hqueued]
  cases hpost : lastVerdict serverID userID post with
  | none =>
    refine Or.inl ⟨rfl, fun s u => ?_⟩
    by_cases hsu : s = serverID ∧ u = userID
    · obtain ⟨rfl, rfl⟩ := hsu
      simp [lastVerdict_append, lastVerdict, hevent', hqueued', hpost]
    · simp [lastVerdict_append, lastVerdict, hevent', hqueued', hsu]
  | some status'' =>
    by_cases hsame : status'' = status
    · refine Or.inl ⟨by simp [hsame], fun s u => ?_⟩
      by_cases hsu : s = serverID ∧ u = userID
      · obtain ⟨rfl, rfl⟩ := hsu
        simp [lastVerdict_append, lastVerdict, hevent', hqueued', hpost, hsame]
      · simp [lastVerdict_append, lastVerdict, hevent', hqueued', hsu]
    · refine Or.inr ⟨by simp [hsame], serverID, userID, status'', status, hsame, ?_, ?_⟩
      · simp [lastVerdict_append, lastVerdict, hpost]
      · simp [lastVerdict_append, lastVerdict, hevent']

theorem Outcome.word_cases
    (h : Outcome resync outgoing priority event outgoing' priority' accepted) :
    replacesSafely outgoing event = true ∧
        SameWord outgoing' (outgoing ++ if accepted then [event] else []) ∨
      replacesSafely outgoing event = false ∧
        Contradict outgoing' (outgoing ++ if accepted then [event] else []) := by
  cases h with
  | mediaFull hmedia =>
    exact Or.inl ⟨replacesSafely_of_inert (inert_of_media hmedia), fun s u => by simp⟩
  | media hmedia =>
    have hinert := inert_of_media hmedia
    exact Or.inl ⟨replacesSafely_of_inert hinert, SameWord.append_inert (fun _ _ => rfl) hinert⟩
  | stale _ _ _ _ hstale =>
    have hinert : presenceChange event = none := by
      refine inert_of_data ?_
      unfold isStale at hstale
      split at hstale <;> simp_all [EventData.isPresence]
    exact Or.inl ⟨replacesSafely_of_inert hinert, SameWord.append_inert (fun _ _ => rfl) hinert⟩
  | absorbed _ hdelta =>
    have hinert := inert_of_delta hdelta
    exact Or.inl ⟨replacesSafely_of_inert hinert, SameWord.append_inert (fun _ _ => rfl) hinert⟩
  | dropped htransient =>
    have hinert := inert_of_transient htransient
    exact Or.inl ⟨replacesSafely_of_inert hinert, SameWord.append_inert (fun _ _ => rfl) hinert⟩
  | compacted _ hdelta hsq =>
    have hinert := inert_of_delta hdelta
    exact Or.inl ⟨replacesSafely_of_inert hinert,
      SameWord.append_inert (fun _ _ => hsq.lastVerdict_eq) hinert⟩
  | full _ hfresh hsq =>
    exact Or.inl ⟨replacesSafely_of_fresh hfresh, fun s u => by simp [hsq.lastVerdict_eq]⟩
  | appended _ hfresh hsq =>
    refine Or.inl ⟨replacesSafely_of_fresh hfresh, fun s u => ?_⟩
    simp only [if_true]
    rw [lastVerdict_append, lastVerdict_append, hsq.lastVerdict_eq]
  | @replaced pre post queued key _ hkey hqueued hqueue _ hpre =>
    subst hqueue
    simp only [if_true]
    rcases presenceChange_of_key hkey with ⟨serverID, userID, status, rfl, hevent⟩ | ⟨hinert, hne⟩
    · rcases presenceChange_of_key hqueued with ⟨s', u', status', heq, hqueued'⟩ | ⟨-, hne⟩
      · obtain ⟨rfl, rfl⟩ := ReplacementKey.presence.inj heq
        simp only [replacesSafely, hkey, hevent, behind_append hqueued hpre, Option.all_some]
        exact replaced_cases hevent hqueued'
      · exact absurd rfl (hne serverID userID)
    · rcases presenceChange_of_key hqueued with ⟨s', u', status', heq, -⟩ | ⟨hinert', -⟩
      · exact absurd heq (hne s' u')
      · refine Or.inl ⟨replacesSafely_of_inert hinert, SameWord.append_inert (fun s u => ?_) hinert⟩
        rw [lastVerdict_remove (verdict_of_inert hinert),
          lastVerdict_remove (verdict_of_inert hinert')]

end Step

/-! ## Runs -/

theorem presence_data_plain {data : EventData} (h : data.isPresence = true) :
    data.isChannelSnapshot = false ∧ data.isStream = false ∧ data.channelID = 0 := by
  cases data <;> first | exact ⟨rfl, rfl, rfl⟩ | cases h

theorem lastVerdict_filterMap (ids : Option (Finset Int)) (s u : Int) (queue : List OutgoingEvent) :
    lastVerdict s u (queue.filterMap (filterChannelEvent ids)) = lastVerdict s u queue := by
  induction queue with
  | nil => rfl
  | cons x queue ih =>
    cases hdata : x.data.isPresence with
    | true =>
      obtain ⟨hsnap, -, hzero⟩ := presence_data_plain hdata
      have hpass : filterChannelEvent ids x = some x :=
        filterChannelEvent_eq_some.mpr ⟨Or.inl hzero, OutgoingEvent.restrict_eq_self hsnap⟩
      simp [hpass, lastVerdict, ih]
    | false =>
      have hx : verdict s u x = none := verdict_of_inert (inert_of_data hdata)
      cases hpass : filterChannelEvent ids x with
      | none => simp [hpass, lastVerdict, ih, hx]
      | some y =>
        obtain ⟨-, rfl⟩ := filterChannelEvent_eq_some.mp hpass
        have hy : verdict s u (x.restrict ids) = none := by
          refine verdict_of_inert (inert_of_data ?_)
          cases hkind : x.data <;> simp_all [OutgoingEvent.restrict, EventData.restrict,
            EventData.isPresence]
        simp [hpass, lastVerdict, ih, hx, hy]

namespace Client

variable {c : Client}

/-- An operation keeps the presence map in step with the reported events. Only an enqueue on an open
connection can fail to. -/
def coalescesSafely (c : Client) : ClientOp → Bool
  | .enqueue event => c.done || replacesSafely c.outgoing event
  | _ => true

theorem filterEvent_of_presence {event : OutgoingEvent} (c : Client)
    (hdata : event.data.isPresence = true) : c.filterEvent event = (c, some event) := by
  obtain ⟨hsnap, hstream, hzero⟩ := presence_data_plain hdata
  exact c.filterEvent_of_readable hsnap hstream (Or.inl hzero)

theorem inert_of_filterEvent {event filtered : OutgoingEvent}
    (hsome : (c.filterEvent event).2 = some filtered) (hevent : presenceChange event = none) :
    presenceChange filtered = none := by
  obtain ⟨-, hsame, hsnap⟩ := filterEvent_eq_some hsome
  cases hkind : event.data.isChannelSnapshot with
  | false => rwa [hsame hkind]
  | true =>
    refine inert_of_data (Bool.not_eq_true _ ▸ fun hdata => ?_)
    simp [hkind, (presence_data_plain hdata).1] at hsnap

theorem enqueue_word_cases (c : Client) (event : OutgoingEvent) :
    c.coalescesSafely (.enqueue event) = true ∧
        SameWord ((c.pops (.enqueue event)).toList ++ (c.apply (.enqueue event)).outgoing)
          (c.outgoing ++ (c.reports (.enqueue event)).toList) ∨
      c.coalescesSafely (.enqueue event) = false ∧
        Contradict ((c.pops (.enqueue event)).toList ++ (c.apply (.enqueue event)).outgoing)
          (c.outgoing ++ (c.reports (.enqueue event)).toList) := by
  cases henqueue : c.enqueue event with
  | mk c' accepted =>
  simp only [coalescesSafely, pops, reports, Client.apply, henqueue, Option.toList_none,
    List.nil_append]
  obtain ⟨-, ⟨hdone, rfl, hout, -⟩ | ⟨hopen, rfl, hnone, hout, -⟩ |
    ⟨hopen, filtered, hsome, houtcome⟩⟩ := enqueue_cases henqueue
  · exact Or.inl ⟨by simp [hdone], fun s u => by simp [hout]⟩
  · -- a filter has rejected the event, so it does not speak about presence
    have hinert : presenceChange event = none := by
      refine inert_of_data (Bool.not_eq_true _ ▸ fun hdata => ?_)
      simp [c.filterEvent_of_presence hdata] at hnone
    refine Or.inl ⟨by simp [replacesSafely_of_inert hinert], ?_⟩
    exact SameWord.append_inert (fun s u => by rw [hout]) hinert
  · rw [hopen, Bool.false_or]
    cases hdata : event.data.isPresence with
    | true =>
      obtain rfl : event = filtered := by simpa [c.filterEvent_of_presence hdata] using hsome
      cases accepted <;> exact houtcome.word_cases
    | false =>
      have hevent := inert_of_data hdata
      have hfiltered := inert_of_filterEvent hsome hevent
      refine Or.inl ⟨replacesSafely_of_inert hevent, ?_⟩
      rcases houtcome.word_cases with ⟨-, hword⟩ | ⟨hclash, -⟩
      · intro s u
        rw [hword s u]
        cases accepted <;>
          simp [lastVerdict_append, lastVerdict, verdict_of_inert hevent,
            verdict_of_inert hfiltered]
      · simp [replacesSafely_of_inert hfiltered] at hclash

theorem WellFormed.popOutgoing_word (h : c.WellFormed) :
    SameWord ((c.pops .popOutgoing).toList ++ (c.apply .popOutgoing).outgoing)
      (c.outgoing ++ (c.reports .popOutgoing).toList) := by
  cases hpop : c.popOutgoing with
  | mk c' popped =>
  simp only [reports, pops, Client.apply, hpop, Option.toList_none, List.append_nil]
  obtain ⟨-, ⟨rfl, hnil, hout, -⟩ | ⟨event, rfl, hcons, hout⟩ | ⟨event, rfl, hcons, -⟩⟩ :=
    popOutgoing_cases hpop
  · intro s u
    simp [hnil, hout]
  · -- the priority lane holds media events only
    intro s u
    have hinert := inert_of_media (h.priority_lane event (by simp [hcons]))
    simp [lastVerdict, verdict_of_inert hinert, hout]
  · intro s u
    simp [hcons]

theorem WellFormed.apply_word_cases (h : c.WellFormed) (op : ClientOp) :
    c.coalescesSafely op = true ∧
        SameWord ((c.pops op).toList ++ (c.apply op).outgoing)
          (c.outgoing ++ (c.reports op).toList) ∨
      c.coalescesSafely op = false ∧
        Contradict ((c.pops op).toList ++ (c.apply op).outgoing)
          (c.outgoing ++ (c.reports op).toList) := by
  cases op with
  | enqueue event => exact c.enqueue_word_cases event
  | popOutgoing => exact Or.inl ⟨rfl, h.popOutgoing_word⟩
  | replaceChannelAccess ids =>
    refine Or.inl ⟨rfl, fun s u => ?_⟩
    simp [pops, reports, Client.apply, Client.replaceChannelAccess, lastVerdict_filterMap]
  | addSubscription | removeSubscription | enableMessageSync | enableMultipleStreams | close =>
    exact Or.inl ⟨rfl, fun s u => by simp [pops, reports, Client.apply]⟩

end Client

/-- The last word of the popped and the queued events is the last word of the reported ones. -/
def InStep (ops : List ClientOp) : Prop :=
  SameWord (newClient.popped ops ++ (newClient.run ops).outgoing) (newClient.reported ops)

theorem inStep_iff (ops : List ClientOp) :
    InStep ops ↔ ∀ m, view m (newClient.popped ops ++ (newClient.run ops).outgoing) =
      view m (newClient.reported ops) :=
  (view_eq_iff _ _).symm

theorem InStep.concat_iff {ops : List ClientOp} (h : InStep ops) (op : ClientOp) :
    InStep (ops ++ [op]) ↔ (newClient.run ops).coalescesSafely op = true := by
  have hwf := Client.WellFormed.newClient.run ops
  have hword : ∀ s u, lastVerdict s u (newClient.popped (ops ++ [op]) ++
      (newClient.run (ops ++ [op])).outgoing) =
        (lastVerdict s u (((newClient.run ops).pops op).toList ++
          ((newClient.run ops).apply op).outgoing)).or
          (lastVerdict s u (newClient.popped ops)) := by
    intro s u
    rw [Client.popped_append, List.append_assoc, lastVerdict_append]
    simp [Client.popped, Client.run]
  have hreported : ∀ s u, lastVerdict s u (newClient.reported (ops ++ [op])) =
      (lastVerdict s u ((newClient.run ops).outgoing ++
        ((newClient.run ops).reports op).toList)).or (lastVerdict s u (newClient.popped ops)) := by
    intro s u
    rw [Client.reported_append, lastVerdict_append, ← h s u, lastVerdict_append,
      lastVerdict_append, Option.or_assoc]
    simp [Client.reported]
  rcases hwf.apply_word_cases op with ⟨hsafe, hsame⟩ | ⟨hclash, s, u, a, b, hne, ha, hb⟩
  · refine ⟨fun _ => hsafe, fun _ s u => ?_⟩
    rw [hword, hreported, hsame s u]
  · refine ⟨fun hstep => ?_, fun hsafe => by simp [hclash] at hsafe⟩
    have := hstep s u
    rw [hword, hreported, ha, hb] at this
    exact absurd (Option.some.inj this) hne

/-- **When coalescing is transparent for presence.** Along a run, the map that a client builds from
the events popped so far and then the queued ones equals, after every step, the map built from the
reported events, if and only if no enqueue replaces an older presence update behind which a queued
event says otherwise about that user. -/
theorem presence_transparent_iff (ops : List ClientOp) : (∀ done rest, ops = done ++ rest → ∀ m,
        view m (newClient.popped done ++ (newClient.run done).outgoing) =
          view m (newClient.reported done)) ↔ ∀ done op rest, ops = done ++ op :: rest →
        (newClient.run done).coalescesSafely op = true := by
  constructor
  · intro h done op rest hops
    have hbefore : InStep done := (inStep_iff done).mpr (h done _ hops)
    have hafter : InStep (done ++ [op]) :=
      (inStep_iff _).mpr (h (done ++ [op]) rest (by simp [hops]))
    exact (hbefore.concat_iff op).mp hafter
  · intro h done
    -- induction on the prefix, one more operation at a time
    induction done using List.reverseRecOn with
    | nil => exact fun _ _ _ => rfl
    | append_singleton done op ih =>
      intro rest hops
      have hbefore : InStep done := (inStep_iff done).mpr (ih (op :: rest) (by simp [hops]))
      exact (inStep_iff _).mp ((hbefore.concat_iff op).mpr (h done op rest (by simp [hops])))

/-- `presence.updated`, as `broadcastPresence` sends it. -/
def presenceUpdatedEvent (serverID userID : Int) (status : PresenceStatus) : OutgoingEvent where
  encoding := none
  requestID := ""
  type := .presenceUpdated
  data := .presenceUpdated serverID userID status
  wellTyped := ⟨nofun, nofun⟩

/-- `presence.snapshot`, as `sendPresenceSnapshot` sends it. -/
def presenceSnapshotEvent (servers : List ServerPresenceSnapshotData) : OutgoingEvent where
  encoding := none
  requestID := ""
  type := .presenceSnapshot
  data := .presenceSnapshot servers
  wellTyped := ⟨nofun, nofun⟩

/-- User 7 comes online, a snapshot confirms it, user 7 goes offline; then the queue is drained. -/
def offlineAfterSnapshot : List ClientOp :=
  [.enqueue (presenceUpdatedEvent 1 7 .online), .enqueue (presenceSnapshotEvent [⟨1, [7]⟩]),
    .enqueue (presenceUpdatedEvent 1 7 .offline), .popOutgoing, .popOutgoing]

/-- **The offline update overtakes the snapshot**: a drained client shows user 7 online, although
the last accepted event said offline. -/
theorem offline_user_shown_online :
    ¬ ∀ (ops : List ClientOp) (m : PresenceMap), (newClient.run ops).outgoing = [] →
      view m (newClient.popped ops) = view m (newClient.reported ops) := by
  intro h
  have hview := h offlineAfterSnapshot (fun _ _ => .offline) (by decide)
  have honline :
    view (fun _ _ => .offline) (newClient.popped offlineAfterSnapshot) 1 7 = .online := by
    decide
  have hoffline : view (fun _ _ => .offline) (newClient.reported offlineAfterSnapshot) 1 7 =
      .offline := by
    decide
  rw [hview, hoffline] at honline
  cases honline

end Voxhold.Realtime
