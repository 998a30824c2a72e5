/-
# Voxhold.Hub.StreamState — who publishes and who watches which stream

`realtime.streamState`: the live streams by channel and publisher, and for every connection the one
stream it publishes or watches. A `*activeStream` is identified by the fields it never changes
(`StreamRef`).
-/

import Mathlib.Data.Finset.Card
import Mathlib.Data.List.AList
import Voxhold.Hub.Registry

namespace Voxhold.Hub

open Voxhold.Lib

inductive StreamMode where
  | server
  | p2p
deriving DecidableEq, Repr

inductive StreamCodec where
  | vp8
  | vp9
  | h264
  | av1
deriving DecidableEq, Repr

inductive StreamDynamicRange where
  | sdr
  | hdr10
  | hlg
deriving DecidableEq, Repr

/-- A rendition, with the fields the selection for a viewer reads. -/
structure StreamRendition where
  id : String
  codec : StreamCodec
  profile : String
  dynamicRange : StreamDynamicRange
deriving DecidableEq, Repr

structure StreamCodecProfile where
  codec : StreamCodec
  profile : String
deriving DecidableEq, Repr

inductive StreamError where
  | voiceRequired
  | alreadyActive
  | unavailable
  | viewerLimit
  | publisherLimit
  | renditionsInvalid
  | renditionUnavailable
deriving DecidableEq, Repr

/-- The identity of an `*activeStream`. -/
structure StreamRef where
  serverID : Int
  channelID : Int
  publisher : Client
deriving DecidableEq, Repr

structure ActiveStream where
  serverID : Int
  channelID : Int
  mode : StreamMode
  codec : StreamCodec
  hasAudio : Bool
  renditions : List StreamRendition
  publisher : Client
  viewers : Finset Client
  startedAtMS : Int

def ActiveStream.ref (v : ActiveStream) : StreamRef :=
  ⟨v.serverID, v.channelID, v.publisher⟩

structure StreamClientState where
  generation : Nat
  stream : StreamRef
  publisher : Bool
  renditionID : String

structure StreamMaps where
  nextGeneration : Nat
  byChannel : NestedMap Int Client ActiveStream
  byClient : AList fun _ : Client => StreamClientState

/-- What the voice check of a start or watch request has established, and what it asks for. -/
structure StreamRequest where
  client : Client
  serverID : Int
  channelID : Int
deriving DecidableEq, Repr

structure StartOptions where
  mode : StreamMode
  codec : StreamCodec
  hasAudio : Bool
  renditions : List StreamRendition
deriving DecidableEq, Repr

structure WatchOptions where
  supportedDynamicRanges : List StreamDynamicRange
  codecProfiles : List StreamCodecProfile
  publisherConnectionID : Option Nat
deriving DecidableEq, Repr

structure ViewerLimits where
  maxStreamViewers : Nat
  maxP2PStreamViewers : Nat

def ViewerLimits.maximum (limits : ViewerLimits) : StreamMode → Nat
  | .server => limits.maxStreamViewers
  | .p2p => limits.maxP2PStreamViewers

def maxChannelPublishers : Nat := 8

/-- The HDR rendition the viewer's ranges and profiles allow, or else the SDR one. -/
def selectStreamRendition (values : List StreamRendition) (opts : WatchOptions) : Option String :=
  let supported := fun r : StreamRendition =>
    r.dynamicRange ≠ .sdr ∧ r.dynamicRange ∈ opts.supportedDynamicRanges ∧
      ⟨r.codec, r.profile⟩ ∈ opts.codecProfiles
  match values.find? fun r => supported r with
  | some r => some r.id
  | none => (values.find? fun r => r.dynamicRange = .sdr).map StreamRendition.id

namespace StreamMaps

variable (m : StreamMaps)
  {v : ActiveStream}

def empty : StreamMaps :=
  ⟨0, NestedMap.empty, ∅⟩

def channelStreams (channelID : Int) : List ActiveStream :=
  (m.byChannel.keysAt channelID).filterMap (m.byChannel.get channelID)

def publishersForChannel (channelID : Int) : List Client :=
  m.byChannel.keysAt channelID

def start (req : StreamRequest) (opts : StartOptions) (supportsMultipleStreams : Bool)
    (nowMS : Int) : Except StreamError StreamMaps :=
  let publishers := (m.publishersForChannel req.channelID).length
  if (m.byClient.lookup req.client).isSome then .error .alreadyActive
  else if !supportsMultipleStreams && 0 < publishers then .error .alreadyActive
  else if maxChannelPublishers ≤ publishers then .error .publisherLimit
  else
    let value : ActiveStream :=
      { serverID := req.serverID
        channelID := req.channelID
        mode := opts.mode
        codec := opts.codec
        hasAudio := opts.hasAudio
        renditions := opts.renditions
        publisher := req.client
        viewers := ∅
        startedAtMS := nowMS }
    .ok
      { nextGeneration := m.nextGeneration + 1
        byChannel := m.byChannel.put req.channelID req.client value
        byClient := m.byClient.insert req.client ⟨m.nextGeneration + 1, value.ref, true, ""⟩ }

/-- The order in which `watch` prefers one candidate to another. -/
def earlier (candidate value : ActiveStream) : Bool :=
  candidate.startedAtMS < value.startedAtMS ||
    (candidate.startedAtMS == value.startedAtMS &&
      candidate.publisher.connectionID < value.publisher.connectionID)

/-- One round of the search: the better one of the stream found so far and the next candidate. -/
def prefer (publisherConnectionID : Option Nat) (value : Option ActiveStream)
    (candidate : ActiveStream) : Option ActiveStream :=
  if publisherConnectionID.any (fun id => id ≠ candidate.publisher.connectionID) then value
  else match value with
    | none => some candidate
    | some v => if earlier candidate v then some candidate else some v

/-- The stream a viewer gets: the earliest one, or the one of the publisher it names. -/
def candidate (channelID : Int) (publisherConnectionID : Option Nat) : Option ActiveStream :=
  (m.channelStreams channelID).foldl (prefer publisherConnectionID) none

def watch (req : StreamRequest) (opts : WatchOptions) (limits : ViewerLimits) :
    Except StreamError StreamMaps :=
  match m.candidate req.channelID opts.publisherConnectionID with
  | none => .error .unavailable
  | some value =>
    if value.publisher = req.client ∨ value.serverID ≠ req.serverID ∨
        (m.byClient.lookup req.client).isSome then .error .unavailable
    else if limits.maximum value.mode ≤ value.viewers.card then .error .viewerLimit
    else match selectStreamRendition value.renditions opts with
      | none => .error .renditionUnavailable
      | some renditionID =>
        if renditionID = "" then .error .renditionUnavailable
        else .ok
          { nextGeneration := m.nextGeneration + 1
            byChannel := m.byChannel.put value.channelID value.publisher
              { value with viewers := insert req.client value.viewers }
            byClient := m.byClient.insert req.client
              ⟨m.nextGeneration + 1, value.ref, false, renditionID⟩ }

def viewersOf (ref : StreamRef) : Finset Client :=
  ((m.byChannel.get ref.channelID ref.publisher).map ActiveStream.viewers).getD ∅

/-- The live streams after a viewer has left one of them. -/
def withoutViewer (ref : StreamRef) (c : Client) : NestedMap Int Client ActiveStream :=
  match m.byChannel.get ref.channelID ref.publisher with
  | none => m.byChannel
  | some value =>
    m.byChannel.put ref.channelID ref.publisher { value with viewers := value.viewers.erase c }

def leave (c : Client) : StreamMaps :=
  match m.byClient.lookup c with
  | none => m
  | some st =>
    if st.publisher then
      -- the stream ends: its publisher and all its viewers are out
      { m with
        byChannel := m.byChannel.drop st.stream.channelID st.stream.publisher
        byClient := (m.byClient.keys.filter fun d => d ∈ m.viewersOf st.stream).foldl
          (fun b d => b.erase d) (m.byClient.erase st.stream.publisher) }
    else
      { m with
        byChannel := m.withoutViewer st.stream c
        byClient := m.byClient.erase c }

/-! ## Consistency -/

/-- Live streams are stored under their own channel and publisher, and who is marked as a publisher
is the publisher of the stream it is in. -/
structure Consistent (m : StreamMaps) : Prop where
  keyed : ∀ ch d v, m.byChannel.get ch d = some v → v.channelID = ch ∧ v.publisher = d
  owner : ∀ c st, m.byClient.lookup c = some st → st.publisher = true → st.stream.publisher = c

theorem empty_consistent : empty.Consistent where
  keyed := by simp [empty]
  owner := by simp [empty]

variable {m} {req : StreamRequest} {m' : StreamMaps}

theorem start_ok {opts : StartOptions} {multiple : Bool} {now : Int}
    (h : m.start req opts multiple now = .ok m') : m.byClient.lookup req.client = none ∧
      (m.byChannel.keysAt req.channelID).length < maxChannelPublishers ∧ ∃ v : ActiveStream,
        v.serverID = req.serverID ∧ v.channelID = req.channelID ∧ v.publisher = req.client ∧
        v.viewers = ∅ ∧ m'.byChannel = m.byChannel.put v.channelID v.publisher v ∧
        m'.byClient = m.byClient.insert req.client ⟨m.nextGeneration + 1, v.ref, true, ""⟩ := by
  unfold start at h
  simp only at h
  split at h
  · cases h
  · next hnone =>
    split at h
    · cases h
    · split at h
      · cases h
      · next hroom =>
        cases h
        exact ⟨by simpa using hnone, not_le.mp hroom, _, rfl, rfl, rfl, rfl, rfl, rfl⟩

theorem Consistent.put {st : StreamClientState} {c : Client} (hm : m.Consistent)
    (hbyChannel : m'.byChannel = m.byChannel.put v.channelID v.publisher v)
    (hbyClient : m'.byClient = m.byClient.insert c st)
    (hst : st.publisher = true → st.stream.publisher = c) : m'.Consistent where
  keyed ch d w hget := by
    rw [hbyChannel, NestedMap.get_put] at hget
    split at hget
    · next heq =>
      cases hget
      exact ⟨heq.1.symm, heq.2.symm⟩
    · exact hm.keyed ch d w hget
  owner d st' hlookup hpub := by
    rw [hbyClient, lookup_insert_eq_ite] at hlookup
    split at hlookup
    · next hd =>
      cases hlookup
      exact (hst hpub).trans hd.symm
    · exact hm.owner d st' hlookup hpub

theorem start_consistent {opts : StartOptions} {multiple : Bool} {now : Int} (hm : m.Consistent)
    (h : m.start req opts multiple now = .ok m') : m'.Consistent := by
  obtain ⟨-, -, v, -, -, hpub, -, hbyChannel, hbyClient⟩ := start_ok h
  exact hm.put hbyChannel hbyClient fun _ => hpub

theorem prefer_eq_or (id : Option Nat) (value : Option ActiveStream) (candidate : ActiveStream) :
    prefer id value candidate = value ∨ prefer id value candidate = some candidate := by
  unfold prefer
  split
  · exact .inl rfl
  · split
    · exact .inr rfl
    · split
      · exact .inr rfl
      · exact .inl rfl

theorem mem_of_mem_foldl_prefer {id : Option Nat} (l : List ActiveStream)
    (acc : Option ActiveStream) (h : l.foldl (prefer id) acc = some v) : v ∈ l ∨ acc = some v := by
  induction l generalizing acc with
  | nil => exact .inr h
  | cons b l ih =>
    rcases ih _ h with hmem | hacc
    · exact .inl (List.mem_cons_of_mem _ hmem)
    · rcases prefer_eq_or id acc b with heq | heq
      · exact .inr (heq ▸ hacc)
      · rw [heq] at hacc
        exact .inl (Option.some.inj hacc ▸ List.mem_cons_self)

theorem get_of_candidate {ch : Int} {id : Option Nat}
    (h : m.candidate ch id = some v) : ∃ d, m.byChannel.get ch d = some v := by
  rcases mem_of_mem_foldl_prefer _ none h with hmem | hnone
  · simp only [channelStreams, List.mem_filterMap] at hmem
    obtain ⟨d, -, hget⟩ := hmem
    exact ⟨d, hget⟩
  · simp at hnone

theorem mem_ids_of_selectStreamRendition {values : List StreamRendition} {opts : WatchOptions}
    {id : String} (h : selectStreamRendition values opts = some id) :
    id ∈ values.map StreamRendition.id := by
  unfold selectStreamRendition at h
  simp only at h
  split at h
  · next r hr =>
    cases h
    exact List.mem_map_of_mem (List.mem_of_find?_eq_some hr)
  · obtain ⟨r, hr, rfl⟩ := Option.map_eq_some_iff.mp h
    exact List.mem_map_of_mem (List.mem_of_find?_eq_some hr)

theorem watch_ok {opts : WatchOptions} {limits : ViewerLimits}
    (hkeyed : ∀ ch d v, m.byChannel.get ch d = some v → v.channelID = ch ∧ v.publisher = d)
    (h : m.watch req opts limits = .ok m') :
    m.byClient.lookup req.client = none ∧ ∃ (v : ActiveStream) (id : String),
      m.byChannel.get v.channelID v.publisher = some v ∧
      v.serverID = req.serverID ∧ v.channelID = req.channelID ∧ v.publisher ≠ req.client ∧
      v.viewers.card < limits.maximum v.mode ∧ id ∈ v.renditions.map StreamRendition.id ∧
      m'.byChannel = m.byChannel.put v.channelID v.publisher
        { v with viewers := insert req.client v.viewers } ∧
      m'.byClient = m.byClient.insert req.client ⟨m.nextGeneration + 1, v.ref, false, id⟩ := by
  unfold watch at h
  split at h
  · cases h
  · next v hcandidate =>
    obtain ⟨d, hget⟩ := get_of_candidate hcandidate
    obtain ⟨hch, hpub⟩ := hkeyed _ d v hget
    split at h
    · cases h
    · next hfit =>
      simp only [not_or, ne_eq, Decidable.not_not, Bool.not_eq_true, Option.isSome_eq_false_iff,
        Option.isNone_iff_eq_none] at hfit
      split at h
      · cases h
      · next hroom =>
        split at h
        · cases h
        · next id hid =>
          split at h
          · cases h
          · cases h
            exact ⟨hfit.2.2, v, id, by rwa [hch, hpub], hfit.2.1, hch, hfit.1, not_le.mp hroom,
              mem_ids_of_selectStreamRendition hid, rfl, rfl⟩

theorem watch_consistent {opts : WatchOptions} {limits : ViewerLimits} (hm : m.Consistent)
    (h : m.watch req opts limits = .ok m') : m'.Consistent := by
  obtain ⟨-, v, id, -, -, -, -, -, -, hbyChannel, hbyClient⟩ := watch_ok hm.keyed h
  exact hm.put (v := { v with viewers := insert req.client v.viewers }) hbyChannel hbyClient nofun

theorem lookup_foldl_erase (l : List Client) (b : AList fun _ : Client => StreamClientState)
    (c : Client) :
    (l.foldl (fun b d => b.erase d) b).lookup c = if c ∈ l then none else b.lookup c := by
  induction l generalizing b with
  | nil => simp
  | cons d l ih =>
    rw [List.foldl_cons, ih]
    by_cases hc : c = d
    · subst hc
      simp
    · simp [hc]

section

variable (hm : m.Consistent)
include hm

theorem lookup_leave (c d : Client) : ((m.leave c).byClient.lookup d = none ∨
      d ≠ c ∧ (m.leave c).byClient.lookup d = m.byClient.lookup d) := by
  unfold leave
  split
  · next hnone =>
    by_cases hd : d = c
    · exact .inl (hd ▸ hnone)
    · exact .inr ⟨hd, rfl⟩
  · next st hst =>
    split
    · next hpub =>
      rw [lookup_foldl_erase, hm.owner c st hst hpub]
      by_cases hd : d = c
      · subst hd
        simp
      · split
        · exact .inl rfl
        · exact .inr ⟨hd, AList.lookup_erase_ne hd⟩
    · by_cases hd : d = c
      · subst hd
        simp
      · exact .inr ⟨hd, AList.lookup_erase_ne hd⟩

theorem eq_or_mem_viewersOf_of_leave {c d : Client}
    (hd : (m.leave c).byClient.lookup d ≠ m.byClient.lookup d) :
    d = c ∨ ∃ own, m.byClient.lookup c = some own ∧ own.publisher = true ∧
      d ∈ m.viewersOf own.stream := by
  by_cases hdc : d = c
  · exact .inl hdc
  · refine .inr ?_
    unfold leave at hd
    split at hd
    · exact absurd rfl hd
    · next own hown =>
      split at hd
      · next hpub =>
        refine ⟨own, hown, hpub, ?_⟩
        by_contra hviewer
        rw [lookup_foldl_erase, hm.owner c own hown hpub, if_neg (by simp [hviewer]),
          AList.lookup_erase_ne hdc] at hd
        exact hd rfl
      · exact absurd (AList.lookup_erase_ne hdc) hd

theorem withoutViewer_keyed (ref : StreamRef) (c : Client) (ch : Int)
    (d : Client) (v : ActiveStream) (hget : (m.withoutViewer ref c).get ch d = some v) :
    v.channelID = ch ∧ v.publisher = d := by
  unfold withoutViewer at hget
  split at hget
  · exact hm.keyed ch d v hget
  · next value hvalue =>
    rw [NestedMap.get_put] at hget
    split at hget
    · next heq =>
      cases hget
      rw [heq.1, heq.2]
      exact hm.keyed _ _ value hvalue
    · exact hm.keyed ch d v hget

theorem leave_consistent (c : Client) : (m.leave c).Consistent := by
  refine ⟨?_, fun d st hlookup hst => ?_⟩
  · unfold leave
    split
    · exact hm.keyed
    · next st _ =>
      split
      · intro ch d v hget
        rw [NestedMap.get_drop] at hget
        split at hget
        · simp at hget
        · exact hm.keyed ch d v hget
      · exact withoutViewer_keyed hm st.stream c
  · rcases lookup_leave hm c d with hnone | ⟨-, hsame⟩
    · rw [hnone] at hlookup
      simp at hlookup
    · exact hm.owner d st (hsame ▸ hlookup) hst

end

end StreamMaps

/-! ## The type of consistent stream maps -/

/-- `streamState` as the hub uses it. -/
def StreamState := { m : StreamMaps // m.Consistent }

namespace StreamState

variable (v : StreamState)

def new : StreamState :=
  ⟨StreamMaps.empty, StreamMaps.empty_consistent⟩

def current (c : Client) : Option StreamRef :=
  (v.1.byClient.lookup c).map StreamClientState.stream

def isPublisher (c : Client) : Bool :=
  (v.1.byClient.lookup c).any StreamClientState.publisher

def publishersForChannel (channelID : Int) : List Client :=
  v.1.publishersForChannel channelID

/-- `start`; a failing one leaves the state alone. -/
def start (req : StreamRequest) (opts : StartOptions) (multiple : Bool) (nowMS : Int) :
    Except StreamError StreamState :=
  match h : v.1.start req opts multiple nowMS with
  | .error e => .error e
  | .ok m => .ok ⟨m, StreamMaps.start_consistent v.2 h⟩

def watch (req : StreamRequest) (opts : WatchOptions) (limits : ViewerLimits) :
    Except StreamError StreamState :=
  match h : v.1.watch req opts limits with
  | .error e => .error e
  | .ok m => .ok ⟨m, StreamMaps.watch_consistent v.2 h⟩

def leave (c : Client) : StreamState :=
  ⟨v.1.leave c, StreamMaps.leave_consistent v.2 c⟩

variable {v} {v' : StreamState} {req : StreamRequest} {c : Client}

@[simp] theorem current_new : new.current c = none := rfl

/-- A state in which a request has put its client into a stream of its server and channel. -/
structure Entered (v v' : StreamState) (req : StreamRequest) : Prop where
  fresh : v.current req.client = none
  entered : ∃ ref, v'.current req.client = some ref ∧ ref.serverID = req.serverID ∧
    ref.channelID = req.channelID
  others : ∀ d, d ≠ req.client → v'.current d = v.current d

theorem Entered.of_insert {st : StreamClientState} (hfresh : v.1.byClient.lookup req.client = none)
    (hbyClient : v'.1.byClient = v.1.byClient.insert req.client st)
    (hserver : st.stream.serverID = req.serverID) (hchannel : st.stream.channelID = req.channelID) :
    Entered v v' req where
  fresh := by simp [current, hfresh]
  entered := ⟨st.stream, by simp [current, hbyClient], hserver, hchannel⟩
  others d hd := by
    simp [current, hbyClient, hd]

theorem start_entered {opts : StartOptions} {multiple : Bool} {now : Int}
    (h : v.start req opts multiple now = .ok v') : Entered v v' req := by
  unfold start at h
  split at h
  · simp at h
  · next m hstart =>
    cases h
    obtain ⟨hfresh, -, v, hserver, hchannel, -, -, -, hbyClient⟩ := StreamMaps.start_ok hstart
    exact Entered.of_insert hfresh hbyClient hserver hchannel

theorem watch_entered {opts : WatchOptions} {limits : ViewerLimits}
    (h : v.watch req opts limits = .ok v') : Entered v v' req := by
  unfold watch at h
  split at h
  · simp at h
  · next m hwatch =>
    cases h
    obtain ⟨hfresh, w, id, -, hserver, hchannel, -, -, -, -, hbyClient⟩ :=
      StreamMaps.watch_ok v.2.keyed hwatch
    exact Entered.of_insert hfresh hbyClient hserver hchannel

theorem current_leave (c d : Client) :
    (v.leave c).current d = none ∨ d ≠ c ∧ (v.leave c).current d = v.current d := by
  rcases StreamMaps.lookup_leave v.2 c d with hnone | ⟨hd, hsame⟩
  · exact .inl (by simp [current, leave, hnone])
  · exact .inr ⟨hd, by simp [current, leave, hsame]⟩

theorem current_leave_self (v : StreamState) (c : Client) : (v.leave c).current c = none := by
  rcases current_leave (v := v) c c with hnone | ⟨hne, -⟩
  · exact hnone
  · exact absurd rfl hne

/-! ### Publishers -/

theorem isPublisher_of_leave {d : Client} (h : (v.leave c).isPublisher d) :
    v.isPublisher d ∧ (v.leave c).current d = v.current d := by
  rcases StreamMaps.lookup_leave v.2 c d with hnone | ⟨hd, hsame⟩
  · simp [isPublisher, leave, hnone] at h
  · exact ⟨by simpa [isPublisher, leave, hsame] using h, by simp [current, leave, hsame]⟩

theorem isPublisher_of_start {opts : StartOptions} {multiple : Bool} {now : Int}
    (hok : v.start req opts multiple now = .ok v') (h : v'.isPublisher c) (hc : c ≠ req.client) :
    v.isPublisher c := by
  unfold start at hok
  split at hok
  · simp at hok
  · next m hstart =>
    cases hok
    obtain ⟨-, -, w, -, -, -, -, -, hbyClient⟩ := StreamMaps.start_ok hstart
    simpa [isPublisher, hbyClient, hc] using h

theorem isPublisher_of_watch {opts : WatchOptions} {limits : ViewerLimits}
    (hok : v.watch req opts limits = .ok v') (h : v'.isPublisher c) :
    c ≠ req.client ∧ v.isPublisher c := by
  unfold watch at hok
  split at hok
  · simp at hok
  · next m hwatch =>
    cases hok
    obtain ⟨-, w, id, -, -, -, -, -, -, -, hbyClient⟩ := StreamMaps.watch_ok v.2.keyed hwatch
    by_cases hc : c = req.client
    · subst hc
      simp [isPublisher, hbyClient] at h
    · exact ⟨hc, by simpa [isPublisher, hbyClient, hc] using h⟩

end StreamState

end Voxhold.Hub
