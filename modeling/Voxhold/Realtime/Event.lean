/-
# Voxhold.Realtime.Event — what the gateway sends to a websocket client

The part of the outgoing events on which the type switches of the queue and the filter depend:
`EventType`, `EventData` with a constructor for each payload that a switch names, and
`OutgoingEvent` with the pairings of type and payload that every publisher keeps. Identifiers are
only compared, so they are `Int`.
-/

import Mathlib.Data.Finset.Basic

namespace Voxhold.Realtime

/-! ## Event types -/

inductive VoiceEvent where
  | join | joined | leave | left | stateUpdate | stateUpdated | participantJoined
  | participantLeft | snapshot | webRTCOffer | webRTCAnswer | webRTCAnswered | iceCandidate
  | webRTCClosed
  deriving DecidableEq, Repr

inductive StreamEvent where
  | start | started | updated | stop | stopped | watch | watching | leave | left | snapshot
  | viewerJoined | viewerLeft | webRTCOffer | webRTCAnswer | webRTCAnswered | iceCandidate
  | webRTCClosed | p2pOffer | p2pAnswer | p2pICECandidate | p2pRestart | recoveryRequest
  deriving DecidableEq, Repr

/-- `EventType`. The wire name of a `voice` or `stream` constructor is the only one that starts with
`voice.` or `stream.`. -/
inductive EventType where
  | authenticate | ready | error | ping | pong
  | channelSubscribe | channelSubscribed | channelUnsubscribe | channelUnsubscribed
  | channelSyncRequired | channelActivity | channelsChanged
  | typingStart | typing
  | serverMemberRemoved | serverMemberJoined | serverMemberRoleUpdated | serverDeleted
  | invitationReceived | avatarUpdated | recordingUpdated
  | channelCreated | channelUpdated | channelDeleted
  | readSnapshot | channelReadSnapshot | channelRead
  | messageCreated | messageUpdated | messageDeleted | messagePinned | messageUnpinned
  | messageReactionsChanged
  | notificationMessage | notificationSettingsUpdated
  | presenceSnapshot | presenceUpdated
  | e2eeKey | e2eeKeyRequest | e2eeKeys
  | voice (event : VoiceEvent)
  | stream (event : StreamEvent)
  deriving DecidableEq, Repr

namespace EventType

/-- `strings.HasPrefix(type, "voice.") || strings.HasPrefix(type, "stream.")`. -/
def isMedia : EventType → Bool
  | .voice _ | .stream _ => true
  | _ => false

/-- Alerts and typing indicators: the types the queue may drop when it is full. -/
def isTransient : EventType → Bool
  | .notificationMessage | .typing | .channelActivity => true
  | _ => false

end EventType

/-! ## Payloads -/

/-- A connection id is the base-36 form of a counter that starts at one; `0` stands for the empty
string. -/
abbrev ConnectionID := Nat

inductive PresenceStatus where
  | online | offline
  deriving DecidableEq, Repr

structure ServerPresenceSnapshotData where
  serverID : Int
  onlineUserIDs : List Int
  deriving DecidableEq, Repr

/-- `ReactionsData`, without the counts themselves. -/
structure ReactionsData where
  channelID : Int
  messageID : Int
  revision : Int
  deriving DecidableEq, Repr

structure ChannelReadData where
  serverID : Int
  channelID : Int
  userID : Int
  lastReadMessageID : Int
  deriving DecidableEq, Repr

/-- `VoiceParticipantData`, the fields that identify a participant and its place. -/
structure VoiceParticipantData where
  connectionID : ConnectionID
  userID : Int
  serverID : Int
  channelID : Int
  deriving DecidableEq, Repr

/-- `StreamData`, the fields that identify a broadcast and its place. -/
structure StreamData where
  serverID : Int
  channelID : Int
  publisherConnectionID : ConnectionID
  deriving DecidableEq, Repr

/-- The payload structs that the queue or a filter distinguishes. The seven payloads that implement
`EventChannelID()` come first. -/
inductive EventData where
  | typing (channelID userID : Int)
  | channelActivity (channelID messageID : Int)
  | e2eeRelay (channelID : Int)
  | notificationSettings (channelID : Int)
  | notification (channelID messageID : Int)
  | reactions (value : ReactionsData)
  | attachmentsChanged (channelID : Int)
  | channel (id : Int)
  | channelDeleted (channelID : Int)
  | channelSubscription (serverID channelID : Int)
  | channelRead (value : ChannelReadData)
  | channelReadSnapshot (channelID : Int)
  | messageCreated (channelID id : Int)
  | messageDeleted (channelID messageID : Int)
  | messagePinned (channelID messageID : Int)
  | messageUnpinned (channelID messageID : Int)
  | voiceParticipant (value : VoiceParticipantData)
  | voiceLeft (channelID : Int) (connectionID : ConnectionID)
  | voiceJoined (participant : VoiceParticipantData)
  | stream (value : StreamData)
  | streamStopped (channelID : Int) (publisherConnectionID : ConnectionID)
  | streamWatching (stream : StreamData)
  | recording (channelID : Int)
  | voiceSnapshot (participants : List VoiceParticipantData)
  | streamSnapshot (streams : List StreamData)
  | readSnapshot (reads : List ChannelReadData)
  | presenceSnapshot (servers : List ServerPresenceSnapshotData)
  | presenceUpdated (serverID userID : Int) (status : PresenceStatus)
  | payload (id : Nat)
  deriving DecidableEq, Repr

namespace EventData

/-- The optional interface `interface{ EventChannelID() int64 }`: `none` for the payloads that do
not implement it. -/
def eventChannelID : EventData → Option Int
  | .typing channelID _ | .channelActivity channelID _ | .e2eeRelay channelID
  | .notificationSettings channelID | .notification channelID _ => some channelID
  | .reactions value => some value.channelID
  | .attachmentsChanged channelID => some channelID
  | _ => none

/-- `event.Data.(message.ReactionsData)` succeeds. -/
def isReactions : EventData → Bool
  | .reactions _ => true
  | _ => false

/-- `event.Data.(ChannelSubscriptionData)`, projected to the channel. -/
def subscriptionChannel : EventData → Option Int
  | .channelSubscription _ channelID => some channelID
  | _ => none

/-- The pairings of type and payload that every publisher keeps: reaction counts are only sent as
`message.reactions_changed`, and a `channel.sync_required` event names its channel (the queue
asserts that payload type without a check). -/
def WellTyped (type : EventType) (data : EventData) : Prop :=
  (data.isReactions = true → type = .messageReactionsChanged) ∧
    (type = .channelSyncRequired → data.subscriptionChannel.isSome = true)
deriving Decidable

end EventData

/-! ## Outgoing events -/

/-- `OutgoingEvent`. The shared JSON encoding is a pointer; `encoding` is its identity. An empty
`RequestID` marks an unsolicited event. -/
structure OutgoingEvent where
  encoding : Option Nat
  requestID : String
  type : EventType
  data : EventData
  wellTyped : EventData.WellTyped type data
  deriving DecidableEq

end Voxhold.Realtime
