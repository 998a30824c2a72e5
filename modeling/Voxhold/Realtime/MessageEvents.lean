/-
# Voxhold.Realtime.MessageEvents — the events of `MessageEventPublisher`

`message_events.go` and `reactions.go`: the only producer of chat events, for the channel room,
without a request id and with an encoding shared by all recipients.
-/

import Voxhold.Realtime.Outgoing

namespace Voxhold.Realtime

/-- `message.Message`, the fields the publisher looks at. -/
structure Message where
  id : Int
  channelID : Int
  replayed : Bool
  deriving DecidableEq, Repr

inductive Publication where
  | messageCreated (value : Message)
  | messageUpdated (value : Message)
  | messageDeleted (value : Message)
  | messagePinned (value : Message)
  | messageUnpinned (channelID messageID : Int)
  | reactionsChanged (value : ReactionsData)
  deriving DecidableEq, Repr

/-- An unsolicited event with a shared encoding, as `Publish` sends it to a room. -/
def roomEvent (encoding : Nat) (type : EventType) (data : EventData)
    (h : EventData.WellTyped type data) : OutgoingEvent where
  encoding := some encoding
  requestID := ""
  type := type
  data := data
  wellTyped := h

def messageCreatedEvent (encoding : Nat) (value : Message) : OutgoingEvent :=
  roomEvent encoding .messageCreated (.messageCreated value.channelID value.id) ⟨nofun, nofun⟩

/-- `PublishMessageCreated`, …, `PublishReactionsChanged`: the event for the room, if there is one.
A replayed creation is not announced again. -/
def Publication.event (encoding : Nat) : Publication → Option OutgoingEvent
  | .messageCreated value =>
    if value.replayed then none
    else some (messageCreatedEvent encoding value)
  | .messageUpdated value =>
    some (roomEvent encoding .messageUpdated (.messageCreated value.channelID value.id)
      ⟨nofun, nofun⟩)
  | .messageDeleted value =>
    some (roomEvent encoding .messageDeleted (.messageDeleted value.channelID value.id)
      ⟨nofun, nofun⟩)
  | .messagePinned value =>
    some (roomEvent encoding .messagePinned (.messagePinned value.channelID value.id)
      ⟨nofun, nofun⟩)
  | .messageUnpinned channelID messageID =>
    some (roomEvent encoding .messageUnpinned (.messageUnpinned channelID messageID)
      ⟨nofun, nofun⟩)
  | .reactionsChanged value =>
    some (roomEvent encoding .messageReactionsChanged (.reactions value) ⟨fun _ => rfl, nofun⟩)

/-- The room a publication goes to. -/
def Publication.channelID : Publication → Int
  | .messageCreated value | .messageUpdated value | .messageDeleted value
  | .messagePinned value => value.channelID
  | .messageUnpinned channelID _ => channelID
  | .reactionsChanged value => value.channelID

def Publication.isUnpin : Publication → Bool
  | .messageUnpinned _ _ => true
  | _ => false

section

variable {p : Publication} {encoding : Nat} {event : OutgoingEvent}

section

variable (h : p.event encoding = some event)
include h

theorem Publication.event_channelID : event.data.channelID = p.channelID := by
  cases p <;> simp only [Publication.event, Option.ite_none_left_eq_some, Option.some.injEq] at h
  case messageCreated => exact h.2 ▸ rfl
  all_goals exact h ▸ rfl

theorem Publication.type_eq_unpinned : event.type = .messageUnpinned ↔ p.isUnpin = true := by
  cases p <;> simp only [Publication.event, Option.ite_none_left_eq_some, Option.some.injEq] at h
  case messageCreated => obtain ⟨-, rfl⟩ := h; simp [messageCreatedEvent, roomEvent, isUnpin]
  all_goals subst h; simp [roomEvent, isUnpin]

theorem Publication.event_plain : event.type.isMedia = false ∧ event.type.isTransient = false ∧
      event.data.isChannelSnapshot = false ∧ event.data.isStream = false := by
  cases p <;> simp only [Publication.event, Option.ite_none_left_eq_some, Option.some.injEq] at h
  case messageCreated => obtain ⟨-, rfl⟩ := h; exact ⟨rfl, rfl, rfl, rfl⟩
  all_goals subst h; exact ⟨rfl, rfl, rfl, rfl⟩

theorem Publication.eventMessageChannel_event
    (hunpin : p.isUnpin = false) : eventMessageChannel event = p.channelID := by
  cases p <;> simp only [Publication.event, Option.ite_none_left_eq_some, Option.some.injEq] at h
  case messageCreated => exact h.2 ▸ rfl
  case messageUnpinned => cases hunpin
  all_goals exact h ▸ rfl

theorem Publication.eventMessageChannel_unpin
    (hunpin : p.isUnpin = true) : eventMessageChannel event = 0 ∧ replacementKey event = none := by
  cases p <;> simp only [isUnpin, Bool.false_eq_true] at hunpin
  cases h
  exact ⟨rfl, rfl⟩

end

end

end Voxhold.Realtime
