/-
# Voxhold.Hub.StreamHistory — the stream state over whole call sequences

The whole representation invariant along every sequence of `start`, `watch` and `leave`: live
streams and connections index each other in BOTH directions, and the limits hold of every live
stream.
-/

import Voxhold.Hub.StreamState

namespace Voxhold.Hub

open Voxhold.Lib ActiveStream NestedMap

namespace StreamMaps

variable {m m' : StreamMaps} {req : StreamRequest} {limits : ViewerLimits} {c d : Client}
  {ch : Int} {v : ActiveStream} {st : StreamClientState}

/-! ## The invariant -/

/-- The live streams and the connections agree, and the limits hold. -/
structure Indexed (limits : ViewerLimits) (m : StreamMaps) : Prop where
  keyed : ∀ ch d v, m.byChannel.get ch d = some v → v.channelID = ch ∧ v.publisher = d
  publisher : ∀ c st, m.byClient.lookup c = some st → st.publisher = true →
    ∃ v, m.byChannel.get st.stream.channelID c = some v ∧ v.ref = st.stream
  published : ∀ ch c v, m.byChannel.get ch c = some v →
    ∃ st, m.byClient.lookup c = some st ∧ st.publisher = true ∧ st.stream = v.ref
  viewer : ∀ c st, m.byClient.lookup c = some st → st.publisher = false →
    ∃ v, m.byChannel.get st.stream.channelID st.stream.publisher = some v ∧ v.ref = st.stream ∧
      c ∈ v.viewers ∧ st.renditionID ∈ v.renditions.map StreamRendition.id
  watched : ∀ ch d v c, m.byChannel.get ch d = some v → c ∈ v.viewers →
    ∃ st, m.byClient.lookup c = some st ∧ st.publisher = false ∧ st.stream = v.ref
  publishers : ∀ ch, (m.byChannel.keysAt ch).length ≤ maxChannelPublishers
  viewers : ∀ ch d v, m.byChannel.get ch d = some v → v.viewers.card ≤ limits.maximum v.mode

theorem empty_indexed (limits : ViewerLimits) : empty.Indexed limits where
  keyed := by simp [empty]
  publisher := by simp [empty]
  published := by simp [empty]
  viewer := by simp [empty]
  watched := by simp [empty]
  publishers := fun _ => Nat.zero_le _
  viewers := by simp [empty]

namespace Indexed

theorem get_eq_none (h : m.Indexed limits) (hc : m.byClient.lookup c = none) (ch : Int) :
    m.byChannel.get ch c = none := by
  by_contra hsome
  obtain ⟨v, hv⟩ := Option.ne_none_iff_exists'.mp hsome
  obtain ⟨st, hst, -⟩ := h.published ch c v hv
  rw [hc] at hst
  cases hst

theorem not_mem_viewers (h : m.Indexed limits) (hc : m.byClient.lookup c = none)
    (hv : m.byChannel.get ch d = some v) : c ∉ v.viewers := by
  intro hmem
  obtain ⟨st, hst, -⟩ := h.watched ch d v c hv hmem
  rw [hc] at hst
  cases hst

theorem channel_unique (h : m.Indexed limits) {ch' : Int} {v' : ActiveStream}
    (hv : m.byChannel.get ch c = some v) (hv' : m.byChannel.get ch' c = some v') : ch = ch' := by
  obtain ⟨st, hst, -, href⟩ := h.published ch c v hv
  obtain ⟨st', hst', -, href'⟩ := h.published ch' c v' hv'
  rw [hst] at hst'
  cases hst'
  have hch : v.ref.channelID = v'.ref.channelID := by rw [← href, ← href']
  rw [← (h.keyed ch c v hv).1, ← (h.keyed ch' c v' hv').1]
  exact hch

end Indexed

/-! ## `start` -/

theorem start_indexed {opts : StartOptions} {multiple : Bool} {now : Int} (hm : m.Indexed limits)
    (h : m.start req opts multiple now = .ok m') : m'.Indexed limits := by
  obtain ⟨hnone, hroom, v, -, hch, hpub, hviewers, hchannel, hclient⟩ := start_ok h
  have hget : ∀ ch d, m'.byChannel.get ch d =
      if ch = v.channelID ∧ d = v.publisher then some v else m.byChannel.get ch d := by
    intro ch d
    rw [hchannel, get_put]
  have hlookup : ∀ d, m'.byClient.lookup d = if d = req.client then
      some ⟨m.nextGeneration + 1, v.ref, true, ""⟩ else m.byClient.lookup d := by
    intro d
    rw [hclient, lookup_insert_eq_ite]
  -- the client was idle: no old entry, in either direction, is about it
  have hfree : ∀ ch, m.byChannel.get ch req.client = none := hm.get_eq_none hnone
  have hidle : ∀ ch d w, m.byChannel.get ch d = some w → req.client ∉ w.viewers :=
    fun _ _ _ hw => hm.not_mem_viewers hnone hw
  obtain ⟨hkeyed, hpublisher, hpublished, hviewer, hwatched, hpublishers, hlimit⟩ := hm
  constructor
  case publishers =>
    intro ch
    rw [hchannel]
    by_cases heq : ch = v.channelID
    · subst heq
      exact (length_keysAt_put_le _).trans (hch ▸ hroom)
    · refine le_trans (length_keysAt_le fun l hl => ?_) (hpublishers ch)
      simpa [heq] using hl
  all_goals grind [ref]

/-! ## `watch` -/

theorem watch_indexed {opts : WatchOptions} (hm : m.Indexed limits)
    (h : m.watch req opts limits = .ok m') : m'.Indexed limits := by
  obtain ⟨hnone, v, id, hv, -, -, hother, hroom, hid, hchannel, hclient⟩ := watch_ok hm.keyed h
  have hget : ∀ ch d, m'.byChannel.get ch d = if ch = v.channelID ∧ d = v.publisher then
      some { v with viewers := insert req.client v.viewers } else m.byChannel.get ch d := by
    intro ch d
    rw [hchannel, get_put]
  have hlookup : ∀ d, m'.byClient.lookup d = if d = req.client then
      some ⟨m.nextGeneration + 1, v.ref, false, id⟩ else m.byClient.lookup d := by
    intro d
    rw [hclient, lookup_insert_eq_ite]
  have hidle : ∀ ch d w, m.byChannel.get ch d = some w → req.client ∉ w.viewers :=
    fun _ _ _ hw => hm.not_mem_viewers hnone hw
  obtain ⟨hkeyed, hpublisher, hpublished, hviewer, hwatched, hpublishers, hlimit⟩ := hm
  constructor
  case publishers => exact fun ch => (length_keysAt_le (by grind)).trans (hpublishers ch)
  case viewers =>
    intro ch d w hw
    rw [hget] at hw
    split at hw
    · cases hw
      exact (Finset.card_insert_le _ _).trans hroom
    · exact hlimit ch d w hw
  all_goals grind [ref]

/-! ## `leave` -/

theorem leave_publisher (hm : m.Indexed limits) (hc : m.byClient.lookup c = some st)
    (hst : st.publisher = true) :
    ∃ v, m.byChannel.get v.channelID c = some v ∧ v.publisher = c ∧ v.ref = st.stream ∧
      (∀ ch d, (m.leave c).byChannel.get ch d =
        if ch = v.channelID ∧ d = c then none else m.byChannel.get ch d) ∧
      ∀ d, (m.leave c).byClient.lookup d =
        if d = c ∨ d ∈ v.viewers then none else m.byClient.lookup d := by
  obtain ⟨v, hv, href⟩ := hm.publisher c st hc hst
  have hpub : v.publisher = c := (hm.keyed _ _ _ hv).2
  have hch : st.stream.channelID = v.channelID := (hm.keyed _ _ _ hv).1.symm
  have hown : st.stream.publisher = c := by rw [← href, ← hpub]; rfl
  have hviewers : m.viewersOf st.stream = v.viewers := by
    simp [viewersOf, hown, hv]
  rw [hch] at hv
  refine ⟨v, hv, hpub, href, fun ch d => ?_, fun d => ?_⟩
  · simp only [leave, hc, hst, if_true, get_drop, hch, hown]
  · simp only [leave, hc, hst, if_true, lookup_foldl_erase, List.mem_filter, hviewers, hown,
      decide_eq_true_eq]
    by_cases hd : d = c
    · subst hd
      simp
    · by_cases hmem : d ∈ v.viewers
      · obtain ⟨st', hst', -⟩ := hm.watched _ _ v d hv hmem
        have hkey : d ∈ m.byClient.keys :=
          AList.mem_keys.mp (AList.lookup_isSome.mp (by simp [hst']))
        simp [hkey, hmem]
      · simp [hd, hmem]

theorem leave_viewer (hm : m.Indexed limits) (hc : m.byClient.lookup c = some st)
    (hst : st.publisher = false) :
    ∃ v, m.byChannel.get v.channelID v.publisher = some v ∧ v.ref = st.stream ∧ c ∈ v.viewers ∧
      (∀ ch d, (m.leave c).byChannel.get ch d = if ch = v.channelID ∧ d = v.publisher then
        some { v with viewers := v.viewers.erase c } else m.byChannel.get ch d) ∧
      ∀ d, (m.leave c).byClient.lookup d = if d = c then none else m.byClient.lookup d := by
  obtain ⟨v, hv, href, hmem, -⟩ := hm.viewer c st hc hst
  obtain ⟨hch, hpub⟩ := hm.keyed _ _ _ hv
  refine ⟨v, by rw [hch, hpub]; exact hv, href, hmem, fun ch d => ?_, fun d => ?_⟩
  · simp only [leave, hc, hst, Bool.false_eq_true, if_false, withoutViewer, hv, get_put,
      hch, hpub]
  · simp only [leave, hc, hst, Bool.false_eq_true, if_false]
    exact lookup_erase_eq_ite _ _ _

theorem leave_indexed (hm : m.Indexed limits) (c : Client) : (m.leave c).Indexed limits := by
  cases hc : m.byClient.lookup c with
  | none =>
    have hsame : m.leave c = m := by simp [leave, hc]
    rwa [hsame]
  | some st =>
    cases hst : st.publisher with
    | true =>
      obtain ⟨v, hv, hpub, href, hget, hlookup⟩ := leave_publisher hm hc hst
      have hunique : ∀ ch w, m.byChannel.get ch c = some w → ch = v.channelID :=
        fun ch w hw => hm.channel_unique hw hv
      obtain ⟨hkeyed, hpublisher, hpublished, hviewer, hwatched, hpublishers, hlimit⟩ := hm
      constructor
      case publishers => exact fun ch => (length_keysAt_le (by grind)).trans (hpublishers ch)
      all_goals grind [ref]
    | false =>
      obtain ⟨v, hv, href, hmem, hget, hlookup⟩ := leave_viewer hm hc hst
      obtain ⟨hkeyed, hpublisher, hpublished, hviewer, hwatched, hpublishers, hlimit⟩ := hm
      constructor
      case publishers => exact fun ch => (length_keysAt_le (by grind)).trans (hpublishers ch)
      case viewers =>
        intro ch d w hw
        rw [hget] at hw
        split at hw
        · cases hw
          exact (Finset.card_erase_le).trans (hlimit _ _ v hv)
        · exact hlimit ch d w hw
      all_goals grind [ref]

/-! ## Call sequences -/

/-- A call of one of the methods that write. What a client supports and the time of the call are
inputs of `start`. -/
inductive StreamCall where
  | start (req : StreamRequest) (opts : StartOptions) (supportsMultipleStreams : Bool) (nowMS : Int)
  | watch (req : StreamRequest) (opts : WatchOptions)
  | leave (c : Client)

/-- How a fallible method leaves the state: an error path returns before the first write. -/
def settle (m : StreamMaps) : Except StreamError StreamMaps → StreamMaps × Option StreamError
  | .error e => (m, some e)
  | .ok m' => (m', none)

def call (limits : ViewerLimits) (m : StreamMaps) : StreamCall → StreamMaps × Option StreamError
  | .start req opts multiple now => m.settle (m.start req opts multiple now)
  | .watch req opts => m.settle (m.watch req opts limits)
  | .leave c => (m.leave c, none)

theorem settle_indexed (hm : m.Indexed limits) {result : Except StreamError StreamMaps}
    (h : ∀ m', result = .ok m' → m'.Indexed limits) : (m.settle result).1.Indexed limits := by
  cases result with
  | error e => exact hm
  | ok m' => exact h m' rfl

theorem settle_of_error {result : Except StreamError StreamMaps} {e : StreamError}
    (h : (m.settle result).2 = some e) : (m.settle result).1 = m := by
  cases result with
  | error e => rfl
  | ok m' => cases h

def after (limits : ViewerLimits) (calls : List StreamCall) : StreamMaps :=
  calls.foldl (fun m x => (m.call limits x).1) empty

theorem call_indexed (hm : m.Indexed limits) (x : StreamCall) :
    (m.call limits x).1.Indexed limits := by
  cases x with
  | start req opts multiple now => exact settle_indexed hm fun m' => start_indexed hm
  | watch req opts => exact settle_indexed hm fun m' => watch_indexed hm
  | leave c => exact leave_indexed hm c

theorem after_indexed (limits : ViewerLimits) (calls : List StreamCall) :
    (after limits calls).Indexed limits := by
  have hrun : ∀ (m : StreamMaps), m.Indexed limits →
      (calls.foldl (fun m x => (m.call limits x).1) m).Indexed limits := by
    induction calls with
    | nil => exact fun m hm => hm
    | cons x calls ih => exact fun m hm => ih _ (call_indexed hm x)
  exact hrun empty (empty_indexed limits)

theorem call_eq_of_error (limits : ViewerLimits) (m : StreamMaps) (x : StreamCall) {e : StreamError}
    (h : (m.call limits x).2 = some e) : (m.call limits x).1 = m := by
  cases x with
  | start req opts multiple now | watch req opts => exact settle_of_error h
  | leave c => cases h

/-- The stream that `r` identifies is live, as `v`. -/
def Live (m : StreamMaps) (r : StreamRef) (v : ActiveStream) : Prop :=
  m.byChannel.get r.channelID r.publisher = some v ∧ v.ref = r

/-- The connection is marked as the publisher, or as a viewer, of the stream that `r` identifies. -/
def Marks (m : StreamMaps) (c : Client) (publisher : Bool) (r : StreamRef) : Prop :=
  ∃ st, m.byClient.lookup c = some st ∧ st.publisher = publisher ∧ st.stream = r

namespace Indexed

theorem marks_publisher_iff (h : m.Indexed limits) (c : Client) (r : StreamRef) :
    m.Marks c true r ↔ r.publisher = c ∧ ∃ v, m.Live r v := by
  constructor
  · rintro ⟨st, hst, hpub, rfl⟩
    obtain ⟨v, hv, href⟩ := h.publisher c st hst hpub
    have hown : st.stream.publisher = c := by
      rw [← href]
      exact (h.keyed _ _ v hv).2
    exact ⟨hown, v, by rw [hown]; exact hv, href⟩
  · rintro ⟨rfl, v, hv, rfl⟩
    exact h.published _ _ v hv

theorem marks_viewer_iff (h : m.Indexed limits) (c : Client) (r : StreamRef) :
    m.Marks c false r ↔ ∃ v, m.Live r v ∧ c ∈ v.viewers := by
  constructor
  · rintro ⟨st, hst, hview, rfl⟩
    obtain ⟨v, hv, href, hmem, -⟩ := h.viewer c st hst hview
    exact ⟨v, ⟨hv, href⟩, hmem⟩
  · rintro ⟨v, ⟨hv, rfl⟩, hmem⟩
    exact h.watched _ _ v c hv hmem

end Indexed

theorem Marks.unique {publisher publisher' : Bool} {r r' : StreamRef} (h : m.Marks c publisher r)
    (h' : m.Marks c publisher' r') : publisher = publisher' ∧ r = r' := by
  obtain ⟨st, hst, rfl, rfl⟩ := h
  obtain ⟨st', hst', rfl, rfl⟩ := h'
  obtain rfl := Option.mem_unique hst hst'
  exact ⟨rfl, rfl⟩

end StreamMaps

/-- **The representation invariant of the stream state.** After every sequence of calls: a
connection is publisher or viewer of one stream at most; it is marked as publisher exactly of its
own live stream and as viewer exactly of the live stream that lists it; nobody views its own stream;
no channel map is empty; the limits on publishers and viewers hold; a viewer's rendition is one of
its stream; and a call that fails changes nothing. -/
theorem stream_state_invariant (limits : ViewerLimits) (calls : List StreamMaps.StreamCall) :
    let m := StreamMaps.after limits calls
    (∀ c p p' r r', m.Marks c p r → m.Marks c p' r' → p = p' ∧ r = r') ∧
      (∀ c r, m.Marks c true r ↔ r.publisher = c ∧ ∃ v, m.Live r v) ∧
      (∀ c r, m.Marks c false r ↔ ∃ v, m.Live r v ∧ c ∈ v.viewers) ∧
      (∀ r v, m.Live r v → v.publisher ∉ v.viewers) ∧
      (∀ ch streams, m.byChannel.entries.lookup ch = some streams → streams.keys ≠ []) ∧
      (∀ ch, (m.publishersForChannel ch).length ≤ maxChannelPublishers) ∧
      (∀ r v, m.Live r v → v.viewers.card ≤ limits.maximum v.mode) ∧
      (∀ c st, m.byClient.lookup c = some st → st.publisher = false →
        ∃ v, m.Live st.stream v ∧ st.renditionID ∈ v.renditions.map StreamRendition.id) ∧
      ∀ x e, (m.call limits x).2 = some e → (m.call limits x).1 = m := by
  intro m
  have h : m.Indexed limits := StreamMaps.after_indexed limits calls
  refine ⟨fun c p p' r r' => StreamMaps.Marks.unique, h.marks_publisher_iff, h.marks_viewer_iff,
    fun r v hlive hself => ?_, m.byChannel.nonempty, h.publishers,
    fun r v hlive => h.viewers _ _ v hlive.1, fun c st hst hview => ?_,
    fun x e => StreamMaps.call_eq_of_error limits m x⟩
  · -- the publisher would carry both marks
    have hviews : m.Marks v.publisher false r := (h.marks_viewer_iff _ _).mpr ⟨v, hlive, hself⟩
    have hpublishes : m.Marks v.publisher true r :=
      (h.marks_publisher_iff _ _).mpr ⟨by rw [← hlive.2]; rfl, v, hlive⟩
    exact Bool.noConfusion (hviews.unique hpublishes).1
  · obtain ⟨v, hv, href, -, hid⟩ := h.viewer c st hst hview
    exact ⟨v, ⟨hv, href⟩, hid⟩

end Voxhold.Hub
