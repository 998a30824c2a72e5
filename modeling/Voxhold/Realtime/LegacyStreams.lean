/-
# Voxhold.Realtime.LegacyStreams — the one-broadcast view of an older client

`filterLegacyStreamEvent` shows one broadcast per channel to old clients. What such a client
believes is a function of the events it gets (`StreamView`), with a SET of publishers for each
channel. Along every run it is the singleton image of `legacyStreams`, and each event is coherent
with the view it meets.
-/

import Mathlib.Data.Finset.Option
import Mathlib.Data.Finset.Dedup
import Voxhold.Realtime.Session

namespace Voxhold.Realtime

/-! ## What the reader shows -/

/-- The publishers that the reader of a connection shows, by channel. -/
def StreamView := Int → Finset ConnectionID

namespace StreamView

/-- The view of a catalog: every broadcast it lists. -/
def ofStreams (streams : List StreamData) : StreamView := fun ch =>
  ((streams.filter (·.channelID = ch)).map (·.publisherConnectionID)).toFinset

/-- The view of a single-broadcast table. -/
def ofPrimary (primary : Int → Option ConnectionID) : StreamView := fun ch => (primary ch).toFinset

def set (view : StreamView) (ch : Int) (publishers : Finset ConnectionID) : StreamView := fun ch' =>
  if ch' = ch then publishers else view ch'

def apply (view : StreamView) (event : OutgoingEvent) : StreamView :=
  match event.type, event.data with
  | .stream .snapshot, .streamSnapshot streams => ofStreams streams
  | .stream .started, .stream value
  | .stream .updated, .stream value => view.set value.channelID {value.publisherConnectionID}
  | .stream .watching, .streamWatching value =>
    view.set value.channelID {value.publisherConnectionID}
  | .stream .stopped, .streamStopped channelID _ => view.set channelID ∅
  | _, _ => view

/-- An event that a reader of one broadcast per channel can take at its word. -/
structure Coherent (view : StreamView) (event : OutgoingEvent) : Prop where
  single : ∀ ch, (view.apply event ch).card ≤ 1
  stops_shown : ∀ ch publisher, event.type = .stream .stopped →
    event.data = .streamStopped ch publisher → publisher ≠ 0 →
    ∀ shown ∈ view ch, publisher = shown
  keeps_shown : ∀ value, event.type = .stream .started ∨ event.type = .stream .updated →
    event.data = .stream value → event.requestID = "" →
    ∀ shown ∈ view value.channelID, value.publisherConnectionID = shown

/-- Every event of a sequence is coherent with the view the ones before it have built. -/
def Faithful : StreamView → List OutgoingEvent → Prop
  | _, [] => True
  | view, event :: rest => view.Coherent event ∧ Faithful (view.apply event) rest

theorem ofStreams_cons (value : StreamData) (streams : List StreamData) (ch : Int) :
    ofStreams (value :: streams) ch =
      if value.channelID = ch then insert value.publisherConnectionID (ofStreams streams ch)
      else ofStreams streams ch := by
  unfold ofStreams
  by_cases h : value.channelID = ch <;> simp [h]

theorem ofPrimary_update (primary : Int → Option ConnectionID) (ch : Int)
    (id : Option ConnectionID) :
    ofPrimary (Function.update primary ch id) = (ofPrimary primary).set ch id.toFinset := by
  funext ch'
  by_cases h : ch' = ch
  · subst h
    simp [ofPrimary, set]
  · simp [ofPrimary, set, h]

theorem card_ofPrimary_le (primary : Int → Option ConnectionID) (ch : Int) :
    (ofPrimary primary ch).card ≤ 1 := by
  unfold ofPrimary
  cases primary ch <;> simp

theorem Coherent.of_apply_eq {view : StreamView} {event : OutgoingEvent}
    {primary : Int → Option ConnectionID} (happly : view.apply event = ofPrimary primary)
    (hstop : ∀ ch publisher, event.type = .stream .stopped →
    event.data = .streamStopped ch publisher →
      publisher ≠ 0 → ∀ shown ∈ view ch, publisher = shown)
    (hkeep : ∀ value, event.type = .stream .started ∨ event.type = .stream .updated →
      event.data = .stream value → event.requestID = "" →
      ∀ shown ∈ view value.channelID, value.publisherConnectionID = shown) : view.Coherent event :=
  ⟨fun ch => happly ▸ card_ofPrimary_le primary ch, hstop, hkeep⟩

end StreamView

/-! ## The snapshot loop -/

theorem primaryStreams_of_known (streams : List StreamData) (primary : Int → Option ConnectionID)
    {ch : Int} {id : ConnectionID} (h : primary ch = some id) :
    (primaryStreams streams primary).1 ch = some id := by
  induction streams generalizing primary with
  | nil => exact h
  | cons value rest ih =>
    unfold primaryStreams
    split
    · exact ih primary h
    · next hnone =>
      have hne : ch ≠ value.channelID := by
        rintro rfl
        simp [h] at hnone
      exact ih _ (by simpa [hne] using h)

theorem ofStreams_primaryStreams (streams : List StreamData) (primary : Int → Option ConnectionID)
    (ch : Int) : StreamView.ofStreams (primaryStreams streams primary).2 ch =
      if (primary ch).isSome then ∅ else ((primaryStreams streams primary).1 ch).toFinset := by
  induction streams generalizing primary with
  | nil =>
    show (∅ : Finset ConnectionID) = _
    cases h : primary ch <;> simp [primaryStreams, h]
  | cons value rest ih =>
    unfold primaryStreams
    split
    · exact ih primary
    · next hnone =>
      simp only [StreamView.ofStreams_cons, ih]
      by_cases h : value.channelID = ch
      · -- the first broadcast of this channel: the rest of the list adds nothing to it
        subst h
        have hfirst := primaryStreams_of_known rest
          (Function.update primary value.channelID (some value.publisherConnectionID))
          (Function.update_self ..)
        simp [hnone, hfirst]
      · have hne : ch ≠ value.channelID := Ne.symm h
        simp [h, hne]

/-! ## One step of the filter -/

/-- The pairing of stream payloads and event types that every publisher keeps. A stop payload also
comes as `stream.left`, which says nothing about the catalog. -/
def OutgoingEvent.StreamPaired (event : OutgoingEvent) : Prop :=
  match event.data with
  | .streamSnapshot _ => event.type = .stream .snapshot
  | .stream _ => event.type = .stream .started ∨ event.type = .stream .updated
  | .streamWatching _ => event.type = .stream .watching
  | _ => True

theorem OutgoingEvent.StreamPaired.restrict {event : OutgoingEvent} (h : event.StreamPaired)
    (ids : Option (Finset Int)) : (event.restrict ids).StreamPaired := by
  unfold OutgoingEvent.StreamPaired at h ⊢
  simp only [OutgoingEvent.restrict]
  cases hdata : event.data <;> rw [hdata] at h <;> exact h

section Transducer

open StreamView

theorem filterLegacyStreamEvent_step {c c' : Client} {event : OutgoingEvent}
    {result : Option OutgoingEvent} (hlegacy : c.multipleStreams = false)
    (hpaired : event.StreamPaired) (h : filterLegacyStreamEvent c event = (c', result)) :
    (result = none ∧ c'.legacyStreams = c.legacyStreams) ∨
      ∃ passed, result = some passed ∧ (ofPrimary c.legacyStreams).Coherent passed ∧
        (ofPrimary c.legacyStreams).apply passed = ofPrimary c'.legacyStreams := by
  unfold filterLegacyStreamEvent at h
  rw [if_neg (by simp [hlegacy])] at h
  unfold OutgoingEvent.StreamPaired at hpaired
  split at h
  · next streams hdata =>
    cases h
    rw [hdata] at hpaired
    have happly : (ofPrimary c.legacyStreams).apply (event.withStreams
        (primaryStreams streams fun _ => none).2
        (event.wellTyped.type_ne_sync (by rw [hdata]; rfl))) =
        ofPrimary (primaryStreams streams fun _ => none).1 := by
      funext ch
      simp only [StreamView.apply, OutgoingEvent.withStreams, hpaired]
      simpa [ofPrimary] using ofStreams_primaryStreams streams (fun _ => none) ch
    refine .inr ⟨_, rfl, .of_apply_eq happly ?_ ?_, happly⟩
    · simp [OutgoingEvent.withStreams]
    · simp [OutgoingEvent.withStreams]
  · next value hdata =>
    simp only at h
    rw [hdata] at hpaired
    split at h <;> cases h
    · exact .inl ⟨rfl, rfl⟩
    · next hpass =>
      have happly : (ofPrimary c.legacyStreams).apply event = ofPrimary
          (Function.update c.legacyStreams value.channelID (some value.publisherConnectionID)) := by
        rw [ofPrimary_update]
        rcases hpaired with htype | htype <;> simp [StreamView.apply, htype, hdata]
      refine .inr ⟨_, rfl, .of_apply_eq happly ?_ ?_, happly⟩
      · simp [hdata]
      · intro value' htype hdata' hreq shown hshown
        obtain rfl : value = value' := EventData.stream.inj (hdata.symm.trans hdata')
        have hknown : c.legacyStreams value.channelID = some shown := by
          simpa [ofPrimary] using hshown
        by_contra hne
        exact hpass (by simp [hknown, hreq, Ne.symm hne])
  · next value hdata =>
    cases h
    rw [hdata] at hpaired
    have happly : (ofPrimary c.legacyStreams).apply event = ofPrimary
        (Function.update c.legacyStreams value.channelID (some value.publisherConnectionID)) := by
      rw [ofPrimary_update]
      simp [StreamView.apply, hpaired, hdata]
    exact .inr ⟨_, rfl, .of_apply_eq happly (by simp [hdata]) (by simp [hdata]), happly⟩
  · next ch publisher hdata =>
    split at h
    · next htype =>
      cases h
      have happly : (ofPrimary c.legacyStreams).apply event = ofPrimary c.legacyStreams := by
        unfold StreamView.apply
        split <;> simp_all
      exact .inr
        ⟨_, rfl, .of_apply_eq happly (fun _ _ hstop => absurd hstop htype) (by simp [hdata]),
        happly⟩
    · next htype =>
      rw [not_not] at htype
      split at h <;> cases h
      · exact .inl ⟨rfl, rfl⟩
      · next hpass =>
        have happly : (ofPrimary c.legacyStreams).apply event =
            ofPrimary (Function.update c.legacyStreams ch none) := by
          rw [ofPrimary_update]
          simp [StreamView.apply, htype, hdata]
        refine .inr ⟨_, rfl, .of_apply_eq happly ?_ (by simp [hdata]), happly⟩
        intro ch' publisher' _ hdata' hne shown hshown
        obtain ⟨rfl, rfl⟩ := EventData.streamStopped.inj (hdata.symm.trans hdata')
        have hknown : c.legacyStreams ch = some shown := by simpa [ofPrimary] using hshown
        by_contra hother
        exact hpass (by simp [hknown, hne, hother])
  · next hnot₁ hnot₂ hnot₃ hnot₄ =>
    cases h
    have happly : (ofPrimary c.legacyStreams).apply event = ofPrimary c.legacyStreams := by
      unfold StreamView.apply
      split <;> simp_all
    refine .inr ⟨_, rfl, .of_apply_eq happly ?_ ?_, happly⟩
    · intro ch publisher _ hdata
      exact absurd hdata (hnot₄ ch publisher)
    · intro value _ hdata
      exact absurd hdata (hnot₂ value)

end Transducer

/-! ## Whole runs -/

namespace Client

/-- The event that an operation lets through both filters, as the filters leave it. -/
def passes (c : Client) : ClientOp → Option OutgoingEvent
  | .enqueue event => if c.done then none else (c.filterEvent event).2
  | _ => none

/-- The events that pass the filters along a run, in order. -/
def passed : Client → List ClientOp → List OutgoingEvent
  | _, [] => []
  | c, op :: ops => (c.passes op).toList ++ passed (c.apply op) ops

theorem legacyStreams_enqueue {c : Client} (hdone : c.done = false) (event : OutgoingEvent) :
    (c.enqueue event).1.legacyStreams = (c.filterEvent event).1.legacyStreams := by
  unfold enqueue
  rw [if_neg (by simp [hdone])]
  split
  · next hfilter => rw [hfilter]
  · next c₁ filtered hfilter =>
    rw [hfilter]
    cases hlocked : c₁.enqueueLocked filtered with
    | mk c₂ ok =>
    obtain ⟨-, coalesced, resyncs, hframe⟩ := enqueueLocked_cases hlocked
    cases ok <;> rw [hframe]

end Client

/-- The operations of a connection whose peer never announced that it shows several broadcasts. -/
def ClientOp.IsLegacy : ClientOp → Prop
  | .enqueue event => event.StreamPaired
  | .enableMultipleStreams => False
  | _ => True

section Runs

open StreamView

theorem Client.passes_step {c : Client} (hlegacy : c.multipleStreams = false) {op : ClientOp}
    (hop : op.IsLegacy) : (c.apply op).multipleStreams = false ∧
      ((c.passes op = none ∧ (c.apply op).legacyStreams = c.legacyStreams) ∨
        ∃ event, c.passes op = some event ∧ (ofPrimary c.legacyStreams).Coherent event ∧
          (ofPrimary c.legacyStreams).apply event = ofPrimary (c.apply op).legacyStreams) := by
  cases op with
  | enqueue event =>
    have hsame : SameSettings c (c.enqueue event).1 := (enqueue_cases rfl).1
    refine ⟨hsame.multipleStreams.trans hlegacy, ?_⟩
    show (c.passes (.enqueue event) = none ∧ (c.enqueue event).1.legacyStreams = _) ∨ _
    cases hdone : c.done with
    | true =>
      refine .inl ⟨by simp [passes, hdone], ?_⟩
      simp [enqueue, hdone]
    | false =>
      simp only [passes, Client.apply, hdone, Bool.false_eq_true, if_false]
      rw [legacyStreams_enqueue hdone]
      unfold filterEvent
      cases hchannel : filterChannelEvent c.channelAccess event with
      | none => exact .inl ⟨rfl, rfl⟩
      | some filtered =>
        obtain ⟨-, rfl⟩ := filterChannelEvent_eq_some.mp hchannel
        exact filterLegacyStreamEvent_step hlegacy (OutgoingEvent.StreamPaired.restrict hop _) rfl
  | popOutgoing =>
    refine ⟨(popOutgoing_cases rfl).1.multipleStreams.trans hlegacy, .inl ⟨rfl, ?_⟩⟩
    show c.popOutgoing.1.legacyStreams = c.legacyStreams
    unfold popOutgoing
    split <;> split <;> rfl
  | enableMultipleStreams => exact absurd hop id
  | replaceChannelAccess | addSubscription | removeSubscription | enableMessageSync | close =>
    exact ⟨hlegacy, .inl ⟨rfl, rfl⟩⟩

theorem Client.passed_faithful {c : Client} (hlegacy : c.multipleStreams = false)
    (ops : List ClientOp) (hops : ∀ op ∈ ops, op.IsLegacy) :
    (ofPrimary c.legacyStreams).Faithful (c.passed ops) ∧
      (c.passed ops).foldl StreamView.apply (ofPrimary c.legacyStreams) =
        ofPrimary (c.run ops).legacyStreams := by
  induction ops generalizing c with
  | nil => exact ⟨trivial, rfl⟩
  | cons op ops ih =>
    obtain ⟨hop, hops⟩ := List.forall_mem_cons.mp hops
    obtain ⟨hlegacy', ⟨hnone, htable⟩ | ⟨event, hsome, hcoherent, htable⟩⟩ :=
      passes_step hlegacy hop
    · obtain ⟨hfaithful, hview⟩ := ih hlegacy' hops
      rw [htable] at hfaithful hview
      simp only [passed, hnone, Option.toList_none, List.nil_append]
      exact ⟨hfaithful, hview⟩
    · obtain ⟨hfaithful, hview⟩ := ih hlegacy' hops
      rw [← htable] at hfaithful hview
      simp only [passed, hsome, Option.toList_some, List.singleton_append]
      exact ⟨⟨hcoherent, hfaithful⟩, hview⟩

end Runs

/-- **A legacy client's view is a faithful single-stream view.** Whatever is offered to a connection
that never enabled several broadcasts, the events that pass the filters are coherent one after the
other, starting from an empty view, and the view they build is `legacyStreams`. -/
theorem legacy_view_faithful (ops : List ClientOp) (hops : ∀ op ∈ ops, op.IsLegacy) :
    StreamView.Faithful (fun _ => ∅) (newClient.passed ops) ∧
      ∀ ch, (newClient.passed ops).foldl StreamView.apply (fun _ => ∅) ch =
        ((newClient.run ops).legacyStreams ch).toFinset := by
  have h := Client.passed_faithful (c := newClient) rfl ops hops
  exact ⟨h.1, fun ch => congrFun h.2 ch⟩

/-- A channel with two broadcasts: the catalog, the stop of the one that is not shown, the stop of
the one that is. -/
def Sample.catalog : List ClientOp :=
  [.enqueue ⟨none, "", .stream .snapshot, .streamSnapshot [⟨1, 5, 2⟩, ⟨1, 5, 3⟩], by decide⟩,
    .enqueue ⟨none, "", .stream .stopped, .streamStopped 5 3, by decide⟩,
    .enqueue ⟨none, "", .stream .stopped, .streamStopped 5 2, by decide⟩]

theorem Sample.catalog_legacy : ∀ op ∈ Sample.catalog, op.IsLegacy := by
  simp [Sample.catalog, ClientOp.IsLegacy, OutgoingEvent.StreamPaired]

theorem legacy_view_faithful_catalog :
    StreamView.Faithful (fun _ => ∅) (newClient.passed Sample.catalog) ∧
      (newClient.passed Sample.catalog).map (·.data) =
        [.streamSnapshot [⟨1, 5, 2⟩], .streamStopped 5 2] :=
  ⟨(legacy_view_faithful Sample.catalog Sample.catalog_legacy).1, by decide⟩

end Voxhold.Realtime
