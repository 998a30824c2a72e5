/-
# Voxhold.Voice.Negotiation — the offers of a voice session

A voice session sends the tracks of the others in its room, without their voices if it is deaf. It
is an instance of `Voxhold.Lib.Negotiation`: a synchronization always goes through, and a restart
that has to wait notes a negotiation too.
-/

import Voxhold.Lib.Negotiation
import Voxhold.Lib.Text

namespace Voxhold.Voice.Negotiation

open Voxhold.Lib Voxhold.Lib.Negotiation

/-! ## Candidates -/

structure ICECandidate where
  candidate : String
  sdpMid : Option String
  sdpMLineIndex : Option ℕ
  usernameFragment : Option String
deriving DecidableEq, Repr

def maxPendingICECandidates : ℕ := 64

/-- A candidate without a username fragment belongs to every description; one with a fragment
belongs to those that have a line with it. -/
def candidateMatchesRemoteDescription (sdp : String) : Option String → Bool
  | none => true
  | some fragment => trimSpace fragment = "" ∨ (sdp.splitOn "\n").any fun line =>
      "a=ice-ufrag:".toList.isPrefixOf (trimSpace line).toList ∧
        trimSpace (String.ofList ((trimSpace line).toList.drop "a=ice-ufrag:".length)) =
          trimSpace fragment

/-! ## The room -/

inductive Kind where
  | audio
  | video
deriving DecidableEq, Repr

structure Track where
  id : String
  ownerConnectionID : String
  kind : Kind
deriving DecidableEq, Repr

structure Room where
  sessions : List String
  tracks : List Track
deriving DecidableEq, Repr

namespace Room

variable (r : Room)

/-- A track of a session in the room, at most one of each kind. -/
def addTrack (value : Track) : Room × Bool :=
  if value.ownerConnectionID ∉ r.sessions ∨ (r.tracks.any fun t =>
      t.ownerConnectionID = value.ownerConnectionID ∧ t.kind = value.kind) then (r, false)
  -- A map entry: a track with the same id is replaced.
  else ({ r with tracks := r.tracks.filter (·.id ≠ value.id) ++ [value] }, true)

def removeTrack (trackID ownerConnectionID : String) : Room × Bool :=
  if r.tracks.any fun t => t.id = trackID ∧ t.ownerConnectionID = ownerConnectionID then
    ({ r with tracks := r.tracks.filter (·.id ≠ trackID) }, true)
  else (r, false)

def removeSession (connectionID : String) : Room × Bool :=
  ({ sessions := r.sessions.filter (· ≠ connectionID)
     tracks := r.tracks.filter (·.ownerConnectionID ≠ connectionID) },
    r.tracks.any fun t => t.ownerConnectionID = connectionID)

end Room

/-- What happens around a session. The ones that report that something changed are followed by a
synchronization. -/
inductive Change where
  | addSession (connectionID : String)
  | addTrack (value : Track)
  | removeTrack (trackID ownerConnectionID : String)
  | removeSession (connectionID : String)
  | setState (deafChanged : Bool)
deriving DecidableEq, Repr

def change : Change → Room → Room × Bool
  | .addSession connectionID, r => ({ r with sessions := r.sessions ++ [connectionID] }, false)
  | .addTrack value, r => r.addTrack value
  | .removeTrack trackID owner, r => r.removeTrack trackID owner
  | .removeSession connectionID, r => r.removeSession connectionID
  | .setState deafChanged, r => (r, deafChanged)

/-! ## The session -/

abbrev VoicePeer := Peer String ICECandidate String

/-- The tracks that a session sends. `selfDeaf` is what was read for a track. -/
def desired (connectionID : String) (r : Room) (selfDeaf : String → Bool) : Finset String :=
  ((r.tracks.filter fun t => t.ownerConnectionID ≠ connectionID ∧
    (¬ selfDeaf t.id ∨ t.kind = .video)).map Track.id).toFinset

def synchronizeTracks (connectionID : String) (r : Room) (selfDeaf : String → Bool)
    (forceOffer : Bool) (p : VoicePeer) : VoicePeer :=
  p.synchronize (desired connectionID r selfDeaf) forceOffer

def restartICE (p : VoicePeer) : VoicePeer :=
  p.restart true

def protocol (connectionID : String) :
    Protocol Room String ICECandidate String Change (String → Bool) where
  limit := maxPendingICECandidates
  fits := fun sdp c => candidateMatchesRemoteDescription sdp c.usernameFragment
  answerable := fun sdp => sdp ≠ ""
  acceptable := fun c => c.candidate ≠ ""
  synchronize := synchronizeTracks connectionID
  restart := restartICE
  change := change

abbrev calls (connectionID : String) :
    Machine (Lib.Negotiation.Session Room String ICECandidate String) Unit
      (Lib.Negotiation.Cmd ICECandidate String Change) (Choice (String → Bool))
      (Call ICECandidate String Change) :=
  Lib.Negotiation.machine (protocol connectionID)

/-- `Join` has set up the transceivers for what the session receives. -/
def joined : VoicePeer := Peer.new true

/-- A synchronization is never put off. -/
theorem lawful (connectionID : String) : Lawful (protocol connectionID) (fun _ => True) where
  synchronize := fun _ _ _ _ hcovered _ => ⟨Peer.covered_synchronize hcovered, trivial,
    Peer.remote_synchronize hcovered, Peer.settled_synchronize hcovered⟩
  restart := fun _ hcovered _ =>
    ⟨Peer.covered_restart hcovered, trivial, Peer.remote_restart, Peer.restart_eq_self⟩
  answer := fun _ _ _ => trivial
  queue := fun _ _ _ => trivial

end Voxhold.Voice.Negotiation
