/-
# Voxhold.Realtime.Confidentiality — a client never receives data of a channel it cannot read

`replaceChannelAccess` promises to "remove queued private data as well as preventing future
enqueues". Every queued event is a fixed point of `filterChannelEvent`; here that becomes a
statement about what the write loop hands to the socket.
-/

import Voxhold.Realtime.MessageEvents
import Voxhold.Realtime.Session

namespace Voxhold.Realtime

/-- The operation installs a policy under which the channel is readable. -/
def ClientOp.grants (channelID : Int) : ClientOp → Bool
  | .replaceChannelAccess ids => canAccessChannel ids channelID
  | _ => false

namespace Client

variable {c : Client}

theorem WellFormed.pops_readable (h : c.WellFormed) {op : ClientOp} {event : OutgoingEvent}
    (hpop : c.pops op = some event) : Readable c.channelAccess event := by
  cases op with
  | popOutgoing =>
    cases hcase : c.popOutgoing with
    | mk c' result =>
    obtain rfl : result = some event := by simpa [pops, hcase] using hpop
    obtain ⟨-, ⟨hnone, -⟩ | ⟨event', heq, hcons, -⟩ | ⟨event', heq, hcons, -⟩⟩ :=
      popOutgoing_cases hcase
    · cases hnone
    · cases heq
      exact h.priority_readable event (by simp [hcons])
    · cases heq
      exact h.outgoing_readable event (by simp [hcons])
  | _ => cases hpop

theorem apply_channelAccess (c : Client) (op : ClientOp) :
    (c.apply op).channelAccess = c.channelAccess ∨
      ∃ ids, op = .replaceChannelAccess ids ∧ (c.apply op).channelAccess = ids := by
  cases op with
  | enqueue event => exact Or.inl (enqueue_cases (Prod.eta _).symm).1.channelAccess
  | popOutgoing => exact Or.inl (popOutgoing_cases (Prod.eta _).symm).1.channelAccess
  | replaceChannelAccess ids => exact Or.inr ⟨ids, rfl, rfl⟩
  | addSubscription | removeSubscription | enableMessageSync | enableMultipleStreams | close =>
    exact Or.inl rfl

theorem apply_hides {channelID : Int} {op : ClientOp}
    (hhidden : canAccessChannel c.channelAccess channelID = false)
    (hop : op.grants channelID = false) :
    canAccessChannel (c.apply op).channelAccess channelID = false := by
  rcases c.apply_channelAccess op with hsame | ⟨ids, rfl, hids⟩
  · rwa [hsame]
  · rw [hids]
    exact hop

theorem WellFormed.popped_hides {channelID : Int} (h : c.WellFormed)
    (hhidden : canAccessChannel c.channelAccess channelID = false) {ops : List ClientOp}
    (hops : ∀ op ∈ ops, op.grants channelID = false) :
    ∀ event ∈ c.popped ops, channelID ∉ event.data.discloses := by
  induction ops generalizing c with
  | nil => simp [popped]
  | cons op ops ih =>
    intro event hevent hdiscloses
    rcases List.mem_append.mp hevent with hnow | hlater
    · have hreadable := h.pops_readable (Option.mem_toList.mp hnow)
      have := hreadable.discloses channelID hdiscloses
      simp [hhidden] at this
    · have hhidden' := apply_hides hhidden (hops op List.mem_cons_self)
      exact ih (h.apply op) hhidden' (fun op' hop' => hops op' (List.mem_cons_of_mem _ hop'))
        event hlater hdiscloses

end Client

end Voxhold.Realtime
